import GuardedData.Toml.Scalar
import GuardedData.Toml.Tables

/-!
# Reading TOML documents

A document is a sequence of lines, each of which holds a header or a key with its value or neither
of them. Arrays and inline tables nest at most 80 deep, and inside of them lines may end wherever
spaces may stand but between the parts of a key. What is wrong with a text is not told.
-/

namespace GuardedData.Toml

/-! ### Lines -/

/-- A text without the comment at its front. -/
def skipComment : List Char → List Char
  | '#' :: rest => rest.dropWhile isText
  | s => s

/-- The rest of a text after spaces, a comment and the end of the line or of the text. -/
def endLine (s : List Char) : Option (List Char) :=
  match skipComment (skipSpaces s) with
  | [] => some []
  | rest => newline? rest

/-- A text without the spaces, line ends and comments at its front, with fuel for the lines. -/
def skipLines : Nat → List Char → List Char
  | 0, s => s
  | fuel + 1, s =>
    let s := skipComment (skipSpaces s)
    match newline? s with
    | some rest => skipLines fuel rest
    | none => s

/-- A text without the spaces, line ends and comments at its front. -/
def skipAll (s : List Char) : List Char := skipLines (s.length + 1) s

/-! ### Values -/

/-- Read a key and what is between it and its value, given what may be skipped there. -/
def readKeyEquals (skip : List Char → List Char) (s : List Char) : Read (List String × String) :=
  match readKey s with
  | none => none
  | some (key, rest) =>
    match skip rest with
    | '=' :: rest => some (key, skip rest)
    | _ => none

/-- Read array elements and the closing bracket, with fuel for their number. -/
def readElements (read : List Char → Read Written) :
    Nat → List Written → List Char → Read (List Written)
  | 0, _, _ => none
  | fuel + 1, soFar, s =>
    match skipAll s with
    | ']' :: rest => some (soFar.reverse, rest)
    | s =>
      match read s with
      | none => none
      | some (w, rest) =>
        match skipAll rest with
        | ',' :: rest => readElements read fuel (w :: soFar) rest
        | ']' :: rest => some ((w :: soFar).reverse, rest)
        | _ => none

/-- Read the entries of an inline table and the closing brace, with fuel for their number. -/
def readEntries (read : List Char → Read Written) : Nat → Nodes → List Char → Read Nodes
  | 0, _, _ => none
  | fuel + 1, soFar, s =>
    match skipAll s with
    | '}' :: rest => some (soFar, rest)
    | s =>
      match readKeyEquals skipAll s with
      | none => none
      | some (key, rest) =>
        match read rest with
        | none => none
        | some (w, rest) =>
          match soFar.insert key w, skipAll rest with
          | some soFar, ',' :: rest => readEntries read fuel soFar rest
          | some soFar, '}' :: rest => some (soFar, rest)
          | _, _ => none

/-- Read a value that has arrays and inline tables nested at most as deep as given. -/
def readValue (depth : Nat) (s : List Char) : Read Written :=
  match s, depth with
  | '[' :: _, 0 | '{' :: _, 0 => none
  | '[' :: rest, depth + 1 =>
    (readElements (readValue depth) (rest.length + 1) [] rest).map
      fun (items, rest) => (.array items, rest)
  | '{' :: rest, depth + 1 =>
    (readEntries (readValue depth) (rest.length + 1) [] rest).map
      fun (entries, rest) => (.table (Node.written entries), rest)
  | s, _ =>
    match s with
    | '"' :: _ | '\'' :: _ => (readString s).map fun (text, rest) => (.string text, rest)
    | s => readWord s

/-! ### Documents -/

/-- Read the rest of a header after the bracket or brackets that open it. -/
def readHeader (header : Header) (d : Draft) (s : List Char) :
    Option (Draft × List Char) := do
  let (key, s) ← readKey (skipSpaces s)
  let s ← match header, s with
    | .single, ']' :: rest => some rest
    | .double, ']' :: ']' :: rest => some rest
    | _, _ => none
  return (← d.openTable header key, s)

/-- Read a line up to its end, or up to the comment there. -/
def readLine (d : Draft) (s : List Char) : Option (Draft × List Char) :=
  match s with
  | [] | '#' :: _ | '\n' :: _ | '\r' :: _ => some (d, s)
  | '[' :: '[' :: rest => readHeader .double d rest
  | '[' :: rest => readHeader .single d rest
  | s => do
    let (key, s) ← readKeyEquals skipSpaces s
    let (w, s) ← readValue 80 s
    return (← d.insert key w, s)

/-- Read the lines of a document, with fuel for their number. -/
def readLines : Nat → Draft → List Char → Option Draft
  | 0, _, _ => none
  | _, d, [] => some d
  | fuel + 1, d, s =>
    match readLine d (skipSpaces s) with
    | none => none
    | some (d, rest) =>
      match endLine rest with
      | none => none
      | some rest => readLines fuel d rest

/-- The entries of the table that a whole text writes. -/
def read? (text : String) : Option (List (String × Written)) := do
  let s := match text.toList with
    | '\uFEFF' :: rest => rest
    | s => s
  let d ← readLines (s.length + 1) {} s
  return Node.written (← d.close)

end GuardedData.Toml
