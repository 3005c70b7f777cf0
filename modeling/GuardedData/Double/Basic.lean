/-!
# Finite binary64 numbers

A magnitude is known by its rank, its place in the increasing sequence of all finite magnitudes:
rank `0` is zero and rank `1` is the unit `2⁻¹⁰⁷⁴`, of which every magnitude is a whole multiple.
All arithmetic is exact on natural numbers and rounds once, to the nearest magnitude, a tie going
to the even rank.
-/

namespace GuardedData

def twoPow (e : Nat) : Nat := Nat.pow 2 e

def tenPow (e : Nat) : Nat := Nat.pow 10 e

/-- The number of finite magnitudes, `2047 · 2⁵²`. -/
def rankCount : Nat := 2047 * 0x10000000000000

/-- A finite binary64 number: a sign and the rank of its magnitude. -/
structure Double where
  negative : Bool
  rank : Nat
  rank_lt : rank < rankCount
deriving DecidableEq

namespace Double

def zero (negative : Bool) : Double := ⟨negative, 0, by decide⟩

/-! ### Reading a rank -/

/-- The power of two by which the mantissa of a rank is scaled, in units. -/
def scaleOf (rank : Nat) : Nat := rank / twoPow 52 - 1

/-- The mantissa of a rank, below `2⁵³`. -/
def mantissaOf (rank : Nat) : Nat := rank - scaleOf rank * twoPow 52

/-- The magnitude of a number as a multiple of the unit `2⁻¹⁰⁷⁴`. -/
def units (d : Double) : Nat := mantissaOf d.rank * twoPow (scaleOf d.rank)

def isZero (d : Double) : Bool := d.rank == 0

def neg (d : Double) : Double := ⟨!d.negative, d.rank, d.rank_lt⟩

/-- Numeric equality: the two zeros are equal. -/
def equal (a b : Double) : Bool :=
  a.rank == b.rank && (a.negative == b.negative || a.isZero)

/-! ### Rounding -/

/-- The natural number nearest to `n / d`, a tie going to the even one. -/
def roundHalfEven (n d : Nat) : Nat :=
  let q := n / d
  let r := n % d
  if 2 * r < d then q
  else if d < 2 * r then q + 1
  else q + q % 2

/-- The rank nearest to `n / d` units; it may lie past the last finite rank. -/
def rankNearest (n d : Nat) : Nat :=
  let scale := Nat.log2 (n / d) - 52
  scale * twoPow 52 + roundHalfEven n (d * twoPow scale)

/-- The finite number of the given sign nearest to `n / d` units, if there is one. -/
def ofUnits? (negative : Bool) (n d : Nat) : Option Double :=
  if h : rankNearest n d < rankCount then some ⟨negative, rankNearest n d, h⟩ else none

/-- The finite number nearest to an integer; beyond the range, the largest magnitude. -/
def ofInt (n : Int) : Double :=
  let rank := min (rankNearest (n.natAbs * twoPow 1074) 1) (rankCount - 1)
  ⟨n < 0, rank, Nat.lt_of_le_of_lt (Nat.min_le_right ..) (by decide)⟩

/-- The number nearest to `digits · 10 ^ exponent`, or `none` past the largest finite number. -/
def ofDecimal? (negative : Bool) (digits : Nat) (exponent : Int) : Option Double :=
  if digits = 0 then some (zero negative)
  else match exponent with
    | .ofNat e => if 310 < e then none else ofUnits? negative (digits * tenPow e * twoPow 1074) 1
    | .negSucc e =>
      if digits.log2 + 400 < e then some (zero negative)
      else ofUnits? negative (digits * twoPow 1074) (tenPow (e + 1))

/-! ### Arithmetic -/

/-- The rounded product, if finite. -/
def mul? (a b : Double) : Option Double :=
  ofUnits? (a.negative != b.negative) (a.units * b.units) (twoPow 1074)

/-- The rounded quotient by a number other than zero, if finite. -/
def div? (a b : Double) : Option Double :=
  ofUnits? (a.negative != b.negative) (a.units * twoPow 1074) b.units

/-- The number nearest to a power of ten, up to `10³⁰⁸`. -/
def ofTenPow (e : Nat) : Double := ofInt (tenPow e)

end Double

end GuardedData
