import GuardedData.Text.Basic
import GuardedData.Value.Basic
import GuardedData.Value.Flaw

/-!
# Reading numbers

An integer that fits 64 bits stays an integer; any other number becomes a double by taking the
digits that fit an unsigned word and scaling them by powers of ten, each step rounded.
-/

namespace GuardedData.Value

/-- Add digits to a number as long as it stays below a bound. -/
def readDigits (bound : Nat) (n : Nat) : List Char → Nat × List Char
  | [] => (n, [])
  | c :: rest =>
    match Text.digit? c with
    | some d => if n * 10 + d < bound then readDigits bound (n * 10 + d) rest else (n, c :: rest)
    | none => (n, c :: rest)

def skipDigits (s : List Char) : List Char := s.dropWhile fun c => Text.isDigit c

/-- Divide by a power of ten, at most `10³⁰⁸` at a time. -/
def scaleDown (d : Double) (e : Nat) : Option Double :=
  if e ≤ 308 then d.div? (Double.ofTenPow e)
  else if d.isZero then some d
  else (d.div? (Double.ofTenPow 308)).bind fun d' => scaleDown d' (e - 308)
termination_by e

/-- Multiply by a power of ten, if the product is finite. -/
def scale? (d : Double) : Int → Option Double
  | .ofNat e =>
    if e ≤ 308 then d.mul? (Double.ofTenPow e) else if d.isZero then some d else none
  | .negSucc e => scaleDown d (e + 1)

/-- The double of a significand and a decimal exponent, for the text before `rest`. -/
def readScaled (negative : Bool) (significand : Nat) (exponent : Int) (rest : List Char) :
    Read Number :=
  match scale? (Double.ofInt significand) exponent with
  | none => failHere .numberOutOfRange rest
  | some d => .ok (.double (if negative then d.neg else d), rest)

/-- Read the exponent of a number after its letter. -/
def readExponent (negative : Bool) (significand : Nat) (exponent : Int) (s : List Char) :
    Read Number :=
  let (down, s) := match s with
    | '+' :: rest => (false, rest)
    | '-' :: rest => (true, rest)
    | rest => (false, rest)
  match s with
  | [] => failHere .endInValue []
  | c :: rest =>
    match Text.digit? c with
    | none => failNext .invalidNumber s
    | some d =>
      let (e, rest) := readDigits 0x80000000 d rest
      match rest with
      | c :: more =>
        if Text.isDigit c then
          if significand ≠ 0 ∧ !down then failHere .numberOutOfRange more
          else .ok (.double (Double.zero negative), skipDigits more)
        else readScaled negative significand (shift down e) (c :: more)
      | [] => readScaled negative significand (shift down e) []
where
  /-- The exponent moved up or down. -/
  shift (down : Bool) (e : Nat) : Int := if down then exponent - e else exponent + e

/-- Read what may follow the digits of a number that is a double. -/
def readTail (negative : Bool) (significand : Nat) (exponent : Int) : List Char → Read Number
  | 'e' :: rest | 'E' :: rest => readExponent negative significand exponent rest
  | rest => readScaled negative significand exponent rest

/-- Read the digits after the point of a number. Digits that no longer fit count for nothing. -/
def readFraction (negative : Bool) (significand : Nat) (exponent : Int) (s : List Char) :
    Read Number :=
  match s with
  | [] => failNext .endInValue []
  | c :: _ =>
    if !Text.isDigit c then failNext .invalidNumber s
    else
      let (n, rest) := readDigits 0x10000000000000000 significand s
      readTail negative n (exponent - (s.length - rest.length : Nat)) (skipDigits rest)

/-- Read what follows the first digits of a number, those that fit an unsigned word. -/
def readWhole (negative : Bool) (n : Nat) (s : List Char) : Read Number :=
  let rest := skipDigits s
  if rest.length < s.length then
    let exponent := s.length - rest.length
    match rest with
    | '.' :: rest => readFraction negative n exponent rest
    | rest => readTail negative n exponent rest
  else match s with
    | '.' :: rest => readFraction negative n 0 rest
    | 'e' :: rest | 'E' :: rest => readExponent negative n 0 rest
    | _ =>
      if negative then
        if n = 0 ∨ 0x8000000000000000 < n then .ok (.double (Double.ofInt n).neg, s)
        else .ok (Number.ofInt (-n), s)
      else .ok (Number.ofInt n, s)

/-- Read a number after its sign. -/
def readNumber (negative : Bool) : List Char → Read Number
  | [] => failHere .endInValue []
  | '0' :: rest =>
    match rest with
    | c :: _ => if Text.isDigit c then failNext .invalidNumber rest
                else readWhole negative 0 rest
    | [] => readWhole negative 0 []
  | c :: rest =>
    match Text.digit? c with
    | none => failNext .invalidNumber (c :: rest)
    | some d =>
      let (n, rest) := readDigits 0x10000000000000000 d rest
      readWhole negative n rest

end GuardedData.Value
