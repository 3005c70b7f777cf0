/-!
# Characters of a text

The characters that texts are read by: blanks, which have the Unicode property `White_Space`, and
ASCII digits of bases up to sixteen in either letter case, with the numbers that they write. A place
in a text is a line and a column, and a name that is none of those to choose from has a wording.
-/

namespace GuardedData

namespace Text

/-! ### Blanks -/

def blankRanges : List (Nat × Nat) :=
  [(0x09, 0x0D), (0x20, 0x20), (0x85, 0x85), (0xA0, 0xA0), (0x1680, 0x1680), (0x2000, 0x200A),
    (0x2028, 0x2029), (0x202F, 0x202F), (0x205F, 0x205F), (0x3000, 0x3000)]

/-- Whether a code point lies in one of some ranges. -/
def inRanges (ranges : List (Nat × Nat)) (n : Nat) : Bool :=
  ranges.any fun (first, last) => first ≤ n && n ≤ last

def isBlank (c : Char) : Bool := inRanges blankRanges c.toNat

/-- A text without the blanks at both ends. -/
def trimBlanks (s : List Char) : List Char :=
  ((s.dropWhile isBlank).reverse.dropWhile isBlank).reverse

/-! ### Digits -/

def digit? (c : Char) : Option Nat :=
  if '0' ≤ c ∧ c ≤ '9' then some (c.toNat - '0'.toNat) else none

def hexDigit? (c : Char) : Option Nat :=
  if 'a' ≤ c ∧ c ≤ 'f' then some (c.toNat - 'a'.toNat + 10)
  else if 'A' ≤ c ∧ c ≤ 'F' then some (c.toNat - 'A'.toNat + 10)
  else digit? c

def isDigit (c : Char) : Bool := (digit? c).isSome

/-- The number that some digits write in a base. -/
def valueIn (base : Nat) (digits : List Char) : Nat :=
  digits.foldl (fun n c => n * base + (hexDigit? c).getD 0) 0

def hexNumber? (digits : List Char) : Option Nat :=
  if digits.all fun c => (hexDigit? c).isSome then some (valueIn 16 digits) else none

/-! ### Choices by name -/

/-- Names to choose from, as a message lists them. -/
def choices : List String → String
  | [] => "there are no variants"
  | [a] => s!"expected `{a}`"
  | [a, b] => s!"expected `{a}` or `{b}`"
  | names => "expected one of " ++ ", ".intercalate (names.map fun name => s!"`{name}`")

/-- The message for a name that is not there. -/
def unknownChoice (name : String) (names : List String) : String :=
  s!"unknown variant `{name}`, {choices names}"

/-- The value of a name, or the message that there is none. -/
def choose {α : Type} (table : List (String × α)) (name : String) : Except String α :=
  match table.lookup name with
  | some a => .ok a
  | none => .error (unknownChoice name (table.map (·.1)))

end Text

/-! ### Positions -/

/-- A line, counted from one, and a column. Columns count the bytes of the UTF-8 encoding, so that
a position may fall inside a character. -/
structure Position where
  line : Nat
  column : Nat

namespace Position

/-- The number of bytes of some characters. -/
def bytes (s : List Char) : Nat := s.foldl (fun n c => n + c.utf8Size) 0

/-- The position reached from another one after some bytes of a text. -/
def advance (p : Position) : Nat → List Char → Position
  | _, [] => p
  | n, c :: rest =>
    if n < c.utf8Size then ⟨p.line, p.column + n⟩
    else if c = '\n' then advance ⟨p.line + 1, 0⟩ (n - 1) rest
    else advance ⟨p.line, p.column + c.utf8Size⟩ (n - c.utf8Size) rest

/-- The position of a text with a number of bytes behind it. -/
def before (text : List Char) (behind : Nat) : Position :=
  advance ⟨1, 0⟩ (bytes text - behind) text

end Position

end GuardedData
