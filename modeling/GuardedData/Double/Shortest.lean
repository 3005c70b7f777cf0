import GuardedData.Double.Basic

/-!
# Shortest decimal text

A finite number is written with the fewest decimal digits that read back as it, and of those with
the nearest, a tie going to the even digit. Very large and very small numbers are written with an
exponent.
-/

namespace GuardedData

/-- A positive decimal `d₁.d₂d₃… · 10 ^ exponent`: the exponent belongs to the first digit. -/
structure Decimal where
  digits : List Char
  exponent : Int

namespace Double

/-- The number of decimal digits of a natural number. -/
def decimalLength (n : Nat) : Nat := (Nat.toDigits 10 n).length

/-- The exponent of the first decimal digit of `n / d`, for `n` and `d` positive. -/
def decimalExponent (n d : Nat) : Int :=
  if d ≤ n then (decimalLength (n / d) : Int) - 1
  else
    let length := decimalLength (d / n)
    if d ≤ n * tenPow (length - 1) then -((length : Int) - 1) else -(length : Int)

/-- Numbers that read back as a given one, in half units: those between two bounds, which belong
to the interval when the mantissa is even. -/
structure Interval where
  low : Nat
  high : Nat
  closed : Bool

/-- The interval of a positive rank. Below the least mantissa of a scale the ranks lie closer. -/
def interval (rank : Nat) : Interval :=
  let scale := scaleOf rank
  let mantissa := mantissaOf rank
  let low :=
    if mantissa = twoPow 52 ∧ 0 < scale then 2 * mantissa * twoPow scale - twoPow (scale - 1)
    else (2 * mantissa - 1) * twoPow scale
  ⟨low, (2 * mantissa + 1) * twoPow scale, mantissa % 2 == 0⟩

/-- Whether `n / d` half units lie in an interval. -/
def Interval.has (i : Interval) (n d : Nat) : Bool :=
  if i.closed then i.low * d ≤ n && n ≤ i.high * d else i.low * d < n && n < i.high * d

/-- Of the two neighbours on the grid of multiples of `10 ^ place`, the multiple that reads back
as the number of the given rank, the nearer when both do. -/
def gridNeighbour? (rank : Nat) (place : Int) : Option Nat :=
  let twice := 2 * mantissaOf rank * twoPow (scaleOf rank)
  -- a multiple `c` of the grid is `c * up / down` half units
  let up := tenPow place.toNat * twoPow 1075
  let down := tenPow (-place).toNat
  let below := twice * down / up
  let i := interval rank
  match i.has (below * up) down, i.has ((below + 1) * up) down with
  | true, true =>
    let toBelow := twice * down - below * up
    let toAbove := (below + 1) * up - twice * down
    if toBelow < toAbove then some below
    else if toAbove < toBelow then some (below + 1)
    else some (below + below % 2)
  | true, false => some below
  | false, true => some (below + 1)
  | false, false => none

/-- The first grid of at most seventeen digits with a neighbour that reads back. -/
def shortestFrom (rank : Nat) (exponent : Int) : Nat → Int → Nat × Int
  | 0, place => (0, place)
  | fuel + 1, place =>
    match gridNeighbour? rank place with
    | some c => (c, place)
    | none => shortestFrom rank exponent fuel (place - 1)

/-- A list without the zeros at its end. -/
def dropTrailingZeros (ds : List Char) : List Char :=
  (ds.reverse.dropWhile (· == '0')).reverse

/-- The shortest decimal that reads back as the magnitude of a number other than zero. -/
def shortest (d : Double) : Decimal :=
  let exponent := decimalExponent d.units (twoPow 1074)
  let (c, place) := shortestFrom d.rank exponent 17 exponent
  let digits := Nat.toDigits 10 c
  ⟨dropTrailingZeros digits, place + digits.length - 1⟩

end Double

namespace Decimal

/-- Plain notation with at least one digit after the point. -/
def plain (d : Decimal) : List Char :=
  match d.exponent with
  | .negSucc e => '0' :: '.' :: (List.replicate e '0' ++ d.digits)
  | .ofNat e =>
    let whole := d.digits.take (e + 1)
    let fraction := d.digits.drop (e + 1)
    whole ++ List.replicate (e + 1 - whole.length) '0' ++ '.' ::
      (if fraction.isEmpty then ['0'] else fraction)

/-- Scientific notation with an explicit sign of the exponent. -/
def scientific (d : Decimal) : List Char :=
  let fraction := d.digits.drop 1
  let point := if fraction.isEmpty then [] else '.' :: fraction
  let sign := if d.exponent < 0 then '-' else '+'
  d.digits.take 1 ++ point ++ 'e' :: sign :: Nat.toDigits 10 d.exponent.natAbs

end Decimal

namespace Double

/-- The text of a number: plain from `0.00001` up to `10¹⁶`, else scientific, and `0.0` for zero. -/
def text (d : Double) : String :=
  let shortest := d.shortest
  let magnitude :=
    if d.isZero then ['0', '.', '0']
    else if -5 ≤ shortest.exponent ∧ shortest.exponent < 16 then shortest.plain
    else shortest.scientific
  String.ofList (if d.negative then '-' :: magnitude else magnitude)

end Double

end GuardedData
