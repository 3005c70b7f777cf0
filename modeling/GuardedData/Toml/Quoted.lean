import GuardedData.Text.Basic

/-!
# TOML strings and keys

A string stands in double quotes with escapes or in single quotes without, on one line or, between
three quotes of a kind, on several. A key is one up to 80 parts with dots between them, each of them
quoted on one line or a word of letters, digits, underscores and dashes.
-/

namespace GuardedData.Toml

open Text (isDigit)

/-- The result of reading from the front of a text, with the rest of it. -/
abbrev Read (α : Type) := Option (α × List Char)

/-! ### Characters -/

/-- Whether a character may stand in a comment or a string: no control character but the tab. -/
def isText (c : Char) : Bool := c == '\t' || (0x20 ≤ c.toNat && c.toNat != 0x7F)

/-- A text without the spaces and tabs at its front. -/
def skipSpaces (s : List Char) : List Char := s.dropWhile fun c => c == ' ' || c == '\t'

/-- The rest of a text after the line end at its front. -/
def newline? : List Char → Option (List Char)
  | '\n' :: rest | '\r' :: '\n' :: rest => some rest
  | _ => none

/-- The character whose code point some hexadecimal digits write. -/
def hexChar? (digits : List Char) : Option Char := do
  let n ← Text.hexNumber? digits
  if n < 0xD800 ∨ (0xDFFF < n ∧ n < 0x110000) then some (Char.ofNat n) else none

def escape? : Char → Option Char
  | 'b' => some '\x08'
  | 't' => some '\t'
  | 'n' => some '\n'
  | 'f' => some '\x0c'
  | 'r' => some '\r'
  | 'e' => some '\x1b'
  | '"' => some '"'
  | '\\' => some '\\'
  | _ => none

/-! ### Strings -/

/-- Read the rest of a quoted string, with its characters so far last first. -/
def readQuoted (soFar : List Char) : List Char → Read String
  | '"' :: rest => some (String.ofList soFar.reverse, rest)
  | '\\' :: 'x' :: a :: b :: rest =>
    match hexChar? [a, b] with
    | some c => readQuoted (c :: soFar) rest
    | none => none
  | '\\' :: 'u' :: a :: b :: c :: d :: rest =>
    match hexChar? [a, b, c, d] with
    | some c => readQuoted (c :: soFar) rest
    | none => none
  | '\\' :: 'U' :: a :: b :: c :: d :: e :: f :: g :: h :: rest =>
    match hexChar? [a, b, c, d, e, f, g, h] with
    | some c => readQuoted (c :: soFar) rest
    | none => none
  | '\\' :: c :: rest =>
    match escape? c with
    | some c => readQuoted (c :: soFar) rest
    | none => none
  | c :: rest => if c != '\\' && isText c then readQuoted (c :: soFar) rest else none
  | [] => none

/-- Read the rest of a literal string. -/
def readLiteral (soFar : List Char) : List Char → Read String
  | '\'' :: rest => some (String.ofList soFar.reverse, rest)
  | c :: rest => if isText c then readLiteral (c :: soFar) rest else none
  | [] => none

/-- Whether a text goes on with spaces up to the end of the line. -/
def endsLine (s : List Char) : Bool := (newline? (skipSpaces s)).isSome

/-- Read the rest of a quoted string of several lines. While skipping, blanks and line ends count
for nothing. Of a run of up to five quotes the last three close the string. -/
def readQuotedLines (skipping : Bool) (soFar : List Char) : List Char → Read String
  | '"' :: '"' :: '"' :: '"' :: '"' :: rest =>
    some (String.ofList ('"' :: '"' :: soFar).reverse, rest)
  | '"' :: '"' :: '"' :: '"' :: rest => some (String.ofList ('"' :: soFar).reverse, rest)
  | '"' :: '"' :: '"' :: rest => some (String.ofList soFar.reverse, rest)
  | '\\' :: 'x' :: a :: b :: rest =>
    match hexChar? [a, b] with
    | some c => readQuotedLines false (c :: soFar) rest
    | none => none
  | '\\' :: 'u' :: a :: b :: c :: d :: rest =>
    match hexChar? [a, b, c, d] with
    | some c => readQuotedLines false (c :: soFar) rest
    | none => none
  | '\\' :: 'U' :: a :: b :: c :: d :: e :: f :: g :: h :: rest =>
    match hexChar? [a, b, c, d, e, f, g, h] with
    | some c => readQuotedLines false (c :: soFar) rest
    | none => none
  | '\\' :: c :: rest =>
    match escape? c with
    | some c => readQuotedLines false (c :: soFar) rest
    | none => if endsLine (c :: rest) then readQuotedLines true soFar (c :: rest) else none
  | '\r' :: '\n' :: rest =>
    if skipping then readQuotedLines true soFar rest
    else readQuotedLines false ('\n' :: '\r' :: soFar) rest
  | c :: rest =>
    if skipping && (c == ' ' || c == '\t' || c == '\n') then readQuotedLines true soFar rest
    else if c == '\n' || (c != '\\' && isText c) then readQuotedLines false (c :: soFar) rest
    else none
  | [] => none

/-- Read the rest of a literal string of several lines. -/
def readLiteralLines (soFar : List Char) : List Char → Read String
  | '\'' :: '\'' :: '\'' :: '\'' :: '\'' :: rest =>
    some (String.ofList ('\'' :: '\'' :: soFar).reverse, rest)
  | '\'' :: '\'' :: '\'' :: '\'' :: rest => some (String.ofList ('\'' :: soFar).reverse, rest)
  | '\'' :: '\'' :: '\'' :: rest => some (String.ofList soFar.reverse, rest)
  | '\r' :: '\n' :: rest => readLiteralLines ('\n' :: '\r' :: soFar) rest
  | c :: rest => if c == '\n' || isText c then readLiteralLines (c :: soFar) rest else none
  | [] => none

/-- A text without the line end that may follow the opening of a string of several lines. -/
def skipFirstNewline (s : List Char) : List Char := (newline? s).getD s

def readString : List Char → Read String
  | '"' :: '"' :: '"' :: rest => readQuotedLines false [] (skipFirstNewline rest)
  | '"' :: rest => readQuoted [] rest
  | '\'' :: '\'' :: '\'' :: rest => readLiteralLines [] (skipFirstNewline rest)
  | '\'' :: rest => readLiteral [] rest
  | _ => none

/-! ### Keys -/

/-- Whether a character may stand in a key without quotes. -/
def isBare (c : Char) : Bool :=
  isDigit c || ('a' ≤ c && c ≤ 'z') || ('A' ≤ c && c ≤ 'Z') || c == '_' || c == '-'

def readSimpleKey (s : List Char) : Read String :=
  match s with
  | '"' :: rest => readQuoted [] rest
  | '\'' :: rest => readLiteral [] rest
  | s =>
    let bare := s.takeWhile isBare
    if bare.isEmpty then none else some (String.ofList bare, s.dropWhile isBare)

/-- Read the parts of a key with dots between them, the last part apart, up to a number of parts. -/
def readParts : Nat → List Char → Read (List String × String)
  | 0, _ => none
  | limit + 1, s =>
    match readSimpleKey s with
    | none => none
    | some (part, rest) =>
      match skipSpaces rest with
      | '.' :: more =>
        (readParts limit (skipSpaces more)).map fun ((path, name), rest) =>
          ((part :: path, name), rest)
      | rest => some (([], part), rest)

/-- Read a key of at most 80 parts. -/
def readKey (s : List Char) : Read (List String × String) := readParts 80 s

end GuardedData.Toml
