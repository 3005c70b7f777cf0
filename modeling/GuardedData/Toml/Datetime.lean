import GuardedData.Text.Basic

/-!
# Dates and times

A date, a time, or both, with an offset only behind both. Written text is normalized: the letters
are capitals, and a fraction of a second has at most nine digits and no zeros at its end.
-/

namespace GuardedData.Toml

open Text (isDigit valueIn)

/-- A day of the calendar. -/
structure Date where
  year : Nat
  month : Nat
  day : Nat

/-- A time of the day, with or without seconds and nanoseconds. -/
structure Time where
  hour : Nat
  minute : Nat
  second : Option Nat
  nanosecond : Option Nat

/-- The distance from universal time. -/
inductive Offset
  | zulu
  | minutes (n : Int)

/-- A date, a time, or both. -/
structure Datetime where
  date : Option Date
  time : Option Time
  offset : Option Offset

/-! ### Text -/

/-- A number with zeros in front up to a width. -/
def padded (width n : Nat) : String :=
  let digits := Nat.toDigits 10 n
  String.ofList (List.replicate (width - digits.length) '0' ++ digits)

def Date.text (d : Date) : String :=
  padded 4 d.year ++ "-" ++ padded 2 d.month ++ "-" ++ padded 2 d.day

/-- The digits of nanoseconds as a fraction of a second. -/
def fractionText (nanosecond : Nat) : String :=
  let digits := ((padded 9 nanosecond).toList.reverse.dropWhile (· == '0')).reverse
  if digits.isEmpty then "0" else String.ofList digits

def Time.text (t : Time) : String :=
  let seconds := match t.second with
    | none => ""
    | some s => ":" ++ padded 2 s
  let fraction := match t.nanosecond with
    | none => ""
    | some n => "." ++ fractionText n
  padded 2 t.hour ++ ":" ++ padded 2 t.minute ++ seconds ++ fraction

def Offset.text : Offset → String
  | .zulu => "Z"
  | .minutes n =>
    (if n < 0 then "-" else "+") ++ padded 2 (n.natAbs / 60) ++ ":" ++ padded 2 (n.natAbs % 60)

def Datetime.text (d : Datetime) : String :=
  let date := match d.date with
    | none => ""
    | some date => date.text
  let time := match d.time with
    | none => ""
    | some time => (if d.date.isSome then "T" else "") ++ time.text
  date ++ time ++ ((d.offset.map Offset.text).getD "")

/-! ### Reading -/

/-- The value of just so many digits at the front of a text, none of which follows them. -/
def readFixed (width : Nat) (s : List Char) : Option (Nat × List Char) :=
  let digits := s.takeWhile isDigit
  if digits.length = width then some (valueIn 10 digits, s.dropWhile isDigit) else none

/-- The rest of a text after a character. -/
def readChar (c : Char) : List Char → Option (List Char)
  | [] => none
  | d :: rest => if d = c then some rest else none

def daysIn (year month : Nat) : Nat :=
  if month = 2 then
    if year % 4 = 0 ∧ (year % 100 ≠ 0 ∨ year % 400 = 0) then 29 else 28
  else if month = 4 ∨ month = 6 ∨ month = 9 ∨ month = 11 then 30
  else 31

def readDate (s : List Char) : Option (Date × List Char) := do
  let (year, s) ← readFixed 4 s
  let (month, s) ← readFixed 2 (← readChar '-' s)
  let (day, s) ← readFixed 2 (← readChar '-' s)
  guard (1 ≤ month ∧ month ≤ 12 ∧ 1 ≤ day ∧ day ≤ daysIn year month)
  return (⟨year, month, day⟩, s)

/-- The nanoseconds of the digits of a fraction, those after the ninth left out. -/
def nanoseconds (digits : List Char) : Nat :=
  valueIn 10 (digits.take 9) * Nat.pow 10 (9 - digits.length)

/-- The seconds and nanoseconds behind the minutes of a time, if there are any. -/
def readSeconds (s : List Char) : Option (Option Nat × Option Nat × List Char) :=
  match s with
  | ':' :: rest => do
    let (second, rest) ← readFixed 2 rest
    guard (second ≤ 60)
    match rest with
    | '.' :: rest =>
      let digits := rest.takeWhile isDigit
      guard !digits.isEmpty
      return (some second, some (nanoseconds digits), rest.dropWhile isDigit)
    | rest => return (some second, none, rest)
  | s => some (none, none, s)

def readTime (s : List Char) : Option (Time × List Char) := do
  let (hour, s) ← readFixed 2 s
  let (minute, s) ← readFixed 2 (← readChar ':' s)
  let (second, nanosecond, s) ← readSeconds s
  guard (hour ≤ 23 ∧ minute ≤ 59)
  return (⟨hour, minute, second, nanosecond⟩, s)

/-- An offset that is a whole text; the empty text is none. -/
def readOffset : List Char → Option (Option Offset)
  | [] => some none
  | ['Z'] | ['z'] => some (some .zulu)
  | sign :: s => do
    guard (sign = '+' ∨ sign = '-')
    let (hours, s) ← readFixed 2 s
    let (minutes, s) ← readFixed 2 (← readChar ':' s)
    guard (hours ≤ 23 ∧ minutes ≤ 59 ∧ s.isEmpty)
    let total : Int := hours * 60 + minutes
    return some (.minutes (if sign = '-' then -total else total))

/-- The date and time that a whole text writes. -/
def Datetime.read? (s : List Char) : Option Datetime :=
  match s.dropWhile isDigit with
  | ':' :: _ => do
    let (time, rest) ← readTime s
    guard rest.isEmpty
    return ⟨none, some time, none⟩
  | _ => do
    let (date, rest) ← readDate s
    match rest with
    | [] => return ⟨some date, none, none⟩
    | c :: rest =>
      guard (c = 'T' ∨ c = 't' ∨ c = ' ')
      let (time, rest) ← readTime rest
      let offset ← readOffset rest
      return ⟨some date, some time, offset⟩

end GuardedData.Toml
