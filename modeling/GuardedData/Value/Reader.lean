import GuardedData.Value.NumberReader
import GuardedData.Value.StringReader

/-!
# Reading values from text

Objects keep the first position and the last value of a repeated key, and containers nest at most
127 deep.
-/

namespace GuardedData.Value

def skipBlanks : List Char → List Char
  | ' ' :: rest | '\n' :: rest | '\t' :: rest | '\r' :: rest => skipBlanks rest
  | rest => rest

/-- Read the rest of a word after its first letter. -/
def readWord (value : Value) : List Char → List Char → Read Value
  | [], rest => .ok (value, rest)
  | _ :: _, [] => failHere .endInValue []
  | w :: ws, c :: rest =>
    if c = w then readWord value ws rest else failNext .expectedWord (c :: rest)

/-- Read array elements and the closing bracket, with fuel for their number. -/
def readItems (read : List Char → Read Value) : Nat → List Value → List Char → Read (List Value)
  | 0, _, s => failHere .endInArray s
  | fuel + 1, soFar, s =>
    match skipBlanks s with
    | [] => failNext .endInArray []
    | ']' :: rest => .ok (soFar.reverse, rest)
    | ',' :: rest =>
      if soFar.isEmpty then item fuel soFar (',' :: rest)
      else match skipBlanks rest with
        | [] => failNext .endInValue []
        | ']' :: rest => failNext .trailingComma (']' :: rest)
        | rest => item fuel soFar rest
    | rest => if soFar.isEmpty then item fuel soFar rest else failNext .expectedArrayEnd rest
where
  /-- Read one element and go on. -/
  item (fuel : Nat) (soFar : List Value) (s : List Char) : Read (List Value) :=
    match read s with
    | .error e => .error e
    | .ok (v, rest) => readItems read fuel (v :: soFar) rest

/-- Read object entries and the closing brace, with fuel for their number. -/
def readEntries (read : List Char → Read Value) :
    Nat → List (String × Value) → List Char → Read (List (String × Value))
  | 0, _, s => failHere .endInObject s
  | fuel + 1, soFar, s =>
    match skipBlanks s with
    | [] => failNext .endInObject []
    | '}' :: rest => .ok (soFar, rest)
    | ',' :: rest =>
      if soFar.isEmpty then failNext .keyNotString (',' :: rest)
      else match skipBlanks rest with
        | [] => failNext .endInValue []
        | '"' :: rest => entry fuel soFar rest
        | '}' :: rest => failNext .trailingComma ('}' :: rest)
        | rest => failNext .keyNotString rest
    | '"' :: rest =>
      if soFar.isEmpty then entry fuel soFar rest else failNext .expectedObjectEnd ('"' :: rest)
    | rest => failNext (if soFar.isEmpty then .keyNotString else .expectedObjectEnd) rest
where
  /-- Read one entry after the opening quote of its key and go on. -/
  entry (fuel : Nat) (soFar : List (String × Value)) (s : List Char) :
      Read (List (String × Value)) :=
    match readChars [] s with
    | .error e => .error e
    | .ok (key, rest) =>
      match skipBlanks rest with
      | [] => failNext .endInObject []
      | ':' :: rest =>
        match read rest with
        | .error e => .error e
        | .ok (v, rest) => readEntries read fuel (Entries.put key v soFar) rest
      | rest => failNext .expectedColon rest

/-- Read a value that has containers nested at most as deep as given. -/
def readValue (depth : Nat) (s : List Char) : Read Value :=
  match skipBlanks s with
  | [] => failNext .endInValue []
  | 'n' :: rest => readWord .null ['u', 'l', 'l'] rest
  | 't' :: rest => readWord (.bool true) ['r', 'u', 'e'] rest
  | 'f' :: rest => readWord (.bool false) ['a', 'l', 's', 'e'] rest
  | '"' :: rest => (readChars [] rest).map fun (text, rest) => (.string text, rest)
  | '-' :: rest => (readNumber true rest).map fun (n, rest) => (.number n, rest)
  | '[' :: rest =>
    match depth with
    | 0 => failNext .tooDeep ('[' :: rest)
    | depth + 1 =>
      (readItems (readValue depth) (rest.length + 1) [] rest).map
        fun (items, rest) => (.array items, rest)
  | '{' :: rest =>
    match depth with
    | 0 => failNext .tooDeep ('{' :: rest)
    | depth + 1 =>
      (readEntries (readValue depth) (rest.length + 1) [] rest).map
        fun (entries, rest) => (.object entries, rest)
  | c :: rest =>
    if Text.isDigit c then (readNumber false (c :: rest)).map fun (n, rest) => (.number n, rest)
    else failNext .expectedValue (c :: rest)

def read (text : String) : Except ReadError Value :=
  let s := text.toList
  match readValue 127 s with
  | .error failure => .error (place s failure)
  | .ok (v, rest) =>
    match skipBlanks rest with
    | [] => .ok v
    | rest => .error (place s ⟨.trailingCharacters, Position.bytes rest - 1⟩)
where
  /-- A failure with its place in the text. -/
  place (s : List Char) (failure : Failure) : ReadError :=
    ⟨failure.flaw, Position.before s failure.behind⟩

end GuardedData.Value
