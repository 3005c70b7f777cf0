import GuardedData.Entries
import GuardedData.Files.Basic

/-!
# Files in memory

A tree of directories, seen from its root. Nothing is known of what lies outside of it but that
there are directories above.
-/

namespace GuardedData

inductive FileTree
  | file (bytes : ByteArray)
  | directory (entries : List (String × FileTree))
deriving Inhabited

namespace FileTree

/-- Put a file into a directory, making the directories on the way. -/
def put (bytes : ByteArray) : List String → FileTree → FileTree
  | [], _ => .file bytes
  | name :: rest, .directory entries =>
    .directory (Entries.put name
      (put bytes rest ((Entries.get? name entries).getD (.directory []))) entries)
  | name :: rest, .file _ => .directory [(name, put bytes rest (.directory []))]

def ofFiles (files : List (String × ByteArray)) : FileTree :=
  files.foldl (fun tree (name, bytes) =>
    tree.put bytes ((name.toList.splitOn '/').map String.ofList)) (.directory [])

/-- A place in a tree, or a number of directories above it. -/
inductive Place
  | inside (here : FileTree) (above : List FileTree)
  | outside (levels : Nat)

/-- The place that a part of a name leads to. -/
def Place.step (part : String) : Place → Except FileFault Place
  | .inside (.file _) _ => .error .notDirectory
  | .inside (.directory entries) above =>
    if part = "" ∨ part = "." then .ok (.inside (.directory entries) above)
    else if part = ".." then
      match above with
      | [] => .ok (.outside 1)
      | parent :: above => .ok (.inside parent above)
    else if 255 < part.utf8ByteSize then .error .nameTooLong
    else match Entries.get? part entries with
      | none => .error .notFound
      | some tree => .ok (.inside tree (.directory entries :: above))
  | .outside levels =>
    if part = "" ∨ part = "." then .ok (.outside levels)
    else if part = ".." then .ok (.outside (levels + 1))
    else if 255 < part.utf8ByteSize then .error .nameTooLong
    else .error .notFound

/-- The place that a name leads to from the root of a tree. -/
def find (tree : FileTree) (name : String) : Except FileFault Place :=
  if name.contains '\x00' then .error .nulInName
  else if name = "" then .error .notFound
  else if 4096 ≤ name.utf8ByteSize then .error .nameTooLong
  else
    let start := if name.startsWith "/" then .outside 1 else .inside tree []
    let parts := (name.toList.splitOn '/').map String.ofList
    parts.foldlM (fun place part => place.step part) start

def read (tree : FileTree) (name : String) : Except FileFault ByteArray :=
  match tree.find name with
  | .error fault => .error fault
  | .ok (.inside (.file bytes) _) => .ok bytes
  | .ok _ => .error .isDirectory

def files (tree : FileTree) : Files Id := ⟨tree.read⟩

end FileTree

end GuardedData
