/-!
# File names

A file name is a text of parts with slashes between them. Names are not looked up here: `..` and
`.` stay where they are written.
-/

namespace GuardedData.FileName

def isAbsolute (name : String) : Bool := name.toList.head? == some '/'

/-- The name of a file relative to a directory. -/
def join (directory name : String) : String :=
  if isAbsolute name || directory.isEmpty then name
  else if directory.toList.getLast? == some '/' then directory ++ name
  else directory ++ "/" ++ name

/-- Whether a part adds nothing to the name of a directory. -/
def isVoid (part : List Char) : Bool := part.isEmpty || part == ['.']

/-- The name of the directory that holds a file, without void parts at its end. -/
def directory (name : String) : String :=
  match (name.toList.splitOn '/').dropLast with
  | [] => ""
  | first :: rest =>
    let parts := first :: (rest.reverse.dropWhile isVoid).reverse
    if parts == [[]] then "/" else String.ofList (['/'].intercalate parts)

/-- The part of a name behind its last slash. -/
def base (name : String) : List Char := ((name.toList.splitOn '/').getLast?).getD []

/-- What follows the last dot of a name, if anything comes before it. -/
def extension? (name : String) : Option (List Char) :=
  let reversed := (base name).reverse
  match reversed.dropWhile (· != '.') with
  | '.' :: _ :: _ => some (reversed.takeWhile (· != '.')).reverse
  | _ => none

/-- Whether a name ends in an extension, letter case aside. -/
def hasExtension (extension : String) (name : String) : Bool :=
  (extension? name).map (·.map Char.toLower) == some extension.toList

end GuardedData.FileName
