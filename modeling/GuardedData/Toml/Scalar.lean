import GuardedData.Toml.Quoted
import GuardedData.Toml.Written

/-!
# TOML scalars without quotes

The words that stand for themselves: booleans, numbers, dates and times. Integers may be written in
four bases and with single underscores between their digits.
-/

namespace GuardedData.Toml

open Text (hexDigit? isDigit valueIn)

/-- The digits of a text of digits with single underscores between them. -/
def plainDigits? (valid : Char → Bool) : List Char → Option (List Char)
  | [] => none
  | [c] => if valid c then some [c] else none
  | c :: '_' :: rest => if valid c then (plainDigits? valid rest).map (c :: ·) else none
  | c :: rest => if valid c then (plainDigits? valid rest).map (c :: ·) else none

/-- An integer in a base other than ten. -/
def basedInteger (base : Nat) (digits : List Char) : Option Written := do
  let valid (c : Char) : Bool := (hexDigit? c).any (· < base)
  return .integer (valueIn base (← plainDigits? valid digits))

/-- The digits of a whole number without a needless zero in front. -/
def wholeDigits? (s : List Char) : Option (List Char) := do
  let digits ← plainDigits? isDigit s
  guard (digits.length = 1 ∨ digits.head? ≠ some '0')
  return digits

/-- The exponent after its letter. -/
def exponent? (s : List Char) : Option Int := do
  let (negative, digits) := match s with
    | '+' :: rest => (false, rest)
    | '-' :: rest => (true, rest)
    | rest => (false, rest)
  let n : Int := valueIn 10 (← plainDigits? isDigit digits)
  return if negative then -n else n

/-- A decimal number after its sign: whole digits, then a fraction, an exponent or both. -/
def decimalNumber (negative : Bool) (s : List Char) : Option Written := do
  let inWhole (c : Char) : Bool := c != '.' && c != 'e' && c != 'E'
  let whole ← wholeDigits? (s.takeWhile inWhole)
  let (fraction, rest) ← match s.dropWhile inWhole with
    | '.' :: rest =>
      let inFraction (c : Char) : Bool := c != 'e' && c != 'E'
      (plainDigits? isDigit (rest.takeWhile inFraction)).map (·, rest.dropWhile inFraction)
    | rest => some ([], rest)
  match rest with
  | [] =>
    if fraction.isEmpty then
      let n : Int := valueIn 10 whole
      return .integer (if negative then -n else n)
    else return real whole fraction 0
  | _ :: digits => return real whole fraction (← exponent? digits)
where
  /-- The double nearest to a decimal, if there is one. -/
  real (whole fraction : List Char) (exponent : Int) : Written :=
    let digits := valueIn 10 (whole ++ fraction)
    match Double.ofDecimal? negative digits (exponent - fraction.length) with
    | some d => .float d
    | none => .huge

/-- A number without a sign of its own behind a sign. -/
def signedNumber (negative : Bool) (s : List Char) : Option Written :=
  if s = ['i', 'n', 'f'] then some (.nonFinite (.infinite negative))
  else if s = ['n', 'a', 'n'] then some (.nonFinite .nan)
  else decimalNumber negative s

/-- Whether a word looks like a date or time: digits before a dash or a colon. -/
def isDatetime (s : List Char) : Bool :=
  match s with
  | c :: _ =>
    isDigit c && (match s.dropWhile isDigit with
      | '-' :: _ | ':' :: _ => true
      | _ => false)
  | [] => false

/-- What a word without quotes writes. -/
def readWholeWord (s : List Char) : Option Written :=
  if s = ['t', 'r', 'u', 'e'] then some (.boolean true)
  else if s = ['f', 'a', 'l', 's', 'e'] then some (.boolean false)
  else if isDatetime s then (Datetime.read? s).map .datetime
  else match s with
    | '0' :: 'x' :: digits => basedInteger 16 digits
    | '0' :: 'o' :: digits => basedInteger 8 digits
    | '0' :: 'b' :: digits => basedInteger 2 digits
    | '+' :: rest => signedNumber false rest
    | '-' :: rest => signedNumber true rest
    | s => signedNumber false s

/-- Whether a character may stand in a word without quotes. -/
def isWordChar (c : Char) : Bool := isBare c || c == '+' || c == '.' || c == ':'

/-- Read a word without quotes. A date may be followed by one space and a time. -/
def readWord (s : List Char) : Read Written :=
  let word := s.takeWhile isWordChar
  let rest := s.dropWhile isWordChar
  match (readDate word).map (·.2), rest with
  | some [], ' ' :: c :: more =>
    if isDigit c then
      let time := (c :: more).takeWhile isWordChar
      (readWholeWord (word ++ ' ' :: time)).map (·, (c :: more).dropWhile isWordChar)
    else (readWholeWord word).map (·, rest)
  | _, rest => (readWholeWord word).map (·, rest)

end GuardedData.Toml
