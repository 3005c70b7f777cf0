import GuardedData.Double.Basic
import Mathlib.Algebra.Order.Group.Unbundled.Int
import Mathlib.Order.Monotone.Basic
import Mathlib.Tactic.Positivity
import Mathlib.Tactic.Ring

/-!
# Rounding to the nearest double

Ranks are in the order of the magnitudes that they stand for, and doubles are equal exactly if they
are the same number (`Double.equal_iff`). The rank that a quotient is rounded to stands for a
magnitude that no other one is nearer than (`Double.rankNearest_nearest`), and it is even if
another one is just as near (`Double.rankNearest_even_of_tie`). In particular no double is nearer to
an integer of 64 bits than the one that it becomes (`Double.ofInt_nearest`), which is the integer
rounded to 53 binary digits: two integers become equal doubles exactly if they round alike
(`Double.equal_ofInt_iff`).
-/

namespace GuardedData.Double

lemma twoPow_eq (e : Nat) : twoPow e = 2 ^ e := rfl

lemma two_pow_eq_mul {a b c : Nat} (h : a = b + c) : 2 ^ a = 2 ^ b * 2 ^ c := by
  rw [h, Nat.pow_add]

/-! ### Natural numbers nearest to a quotient -/

lemma roundHalfEven_mul_self (q : Nat) {d : Nat} (hd : 0 < d) : roundHalfEven (q * d) d = q := by
  simp [roundHalfEven, hd]

lemma roundHalfEven_mul_mul (n d : Nat) {c : Nat} (hc : 0 < c) :
    roundHalfEven (n * c) (d * c) = roundHalfEven n d := by
  have hlow : 2 * (n % d * c) < d * c ↔ 2 * (n % d) < d := by
    rw [← Nat.mul_assoc, Nat.mul_lt_mul_right hc]
  have hhigh : d * c < 2 * (n % d * c) ↔ d < 2 * (n % d) := by
    rw [← Nat.mul_assoc, Nat.mul_lt_mul_right hc]
  simp only [roundHalfEven, Nat.mul_div_mul_right _ _ hc, Nat.mul_mod_mul_right, hlow, hhigh]

/-- A quotient is rounded down or up, to the nearer side, and to the even one in the middle. -/
lemma roundHalfEven_cases (n d : Nat) :
    roundHalfEven n d = n / d ∧ (2 * (n % d) < d ∨ 2 * (n % d) = d ∧ n / d % 2 = 0) ∨
      roundHalfEven n d = n / d + 1 ∧ (d < 2 * (n % d) ∨ 2 * (n % d) = d ∧ n / d % 2 = 1) := by
  simp only [roundHalfEven]
  by_cases hlow : 2 * (n % d) < d
  · simp [hlow]
  · by_cases hhigh : d < 2 * (n % d)
    · simp [hlow, hhigh]
    · have htie : 2 * (n % d) = d := by omega
      rcases Nat.mod_two_eq_zero_or_one (n / d) with heven | hodd
      · simp [heven, htie]
      · simp [hodd, htie]

lemma div_le_roundHalfEven (n d : Nat) : n / d ≤ roundHalfEven n d := by
  rcases roundHalfEven_cases n d with ⟨h, -⟩ | ⟨h, -⟩ <;> omega

lemma roundHalfEven_le_div (n d : Nat) : roundHalfEven n d ≤ n / d + 1 := by
  rcases roundHalfEven_cases n d with ⟨h, -⟩ | ⟨h, -⟩ <;> omega

/-! ### The magnitude that a rank stands for -/

def unitsOf (rank : Nat) : Nat := mantissaOf rank * 2 ^ scaleOf rank

lemma units_eq (d : Double) : d.units = unitsOf d.rank := rfl

/-- Mantissas of 53 binary digits count the ranks of a scale, and the first rank of the next one. -/
lemma unitsOf_add {scale m : Nat} (hlow : 2 ^ 52 ≤ m) (hhigh : m ≤ 2 ^ 53) :
    unitsOf (scale * 2 ^ 52 + m) = m * 2 ^ scale := by
  by_cases hcarry : m = 2 ^ 53
  · have hscale : scaleOf (scale * 2 ^ 52 + m) = scale + 1 := by
      show (scale * 2 ^ 52 + m) / 2 ^ 52 - 1 = scale + 1
      omega
    have hmantissa : mantissaOf (scale * 2 ^ 52 + m) = 2 ^ 52 := by
      rw [mantissaOf, hscale]
      show scale * 2 ^ 52 + m - (scale + 1) * 2 ^ 52 = 2 ^ 52
      omega
    rw [unitsOf, hmantissa, hscale, hcarry]
    ring
  · have hscale : scaleOf (scale * 2 ^ 52 + m) = scale := by
      show (scale * 2 ^ 52 + m) / 2 ^ 52 - 1 = scale
      omega
    have hmantissa : mantissaOf (scale * 2 ^ 52 + m) = m := by
      rw [mantissaOf, hscale]
      show scale * 2 ^ 52 + m - scale * 2 ^ 52 = m
      omega
    rw [unitsOf, hmantissa, hscale]

/-- The smallest magnitudes are all whole multiples of the unit. -/
lemma unitsOf_of_le {rank : Nat} (h : rank ≤ 2 ^ 53) : unitsOf rank = rank := by
  by_cases hlow : 2 ^ 52 ≤ rank
  · have hadd : unitsOf (0 * 2 ^ 52 + rank) = rank * 2 ^ 0 := unitsOf_add hlow h
    simpa using hadd
  · have hscale : scaleOf rank = 0 := by
      show rank / 2 ^ 52 - 1 = 0
      omega
    simp [unitsOf, mantissaOf, hscale]

lemma unitsOf_lt_succ (rank : Nat) : unitsOf rank < unitsOf (rank + 1) := by
  by_cases hsmall : rank < 2 ^ 53
  · rw [unitsOf_of_le hsmall, unitsOf_of_le hsmall.le]
    exact Nat.lt_succ_self rank
  · obtain ⟨scale, m, hlow, hhigh, rfl⟩ :
        ∃ scale m, 2 ^ 52 ≤ m ∧ m < 2 ^ 53 ∧ rank = scale * 2 ^ 52 + m :=
      ⟨rank / 2 ^ 52 - 1, rank % 2 ^ 52 + 2 ^ 52, by omega, by omega, by omega⟩
    rw [Nat.add_assoc, unitsOf_add hlow hhigh.le, unitsOf_add (by omega) hhigh]
    exact Nat.mul_lt_mul_of_pos_right (Nat.lt_succ_self m) (Nat.two_pow_pos scale)

/-- Ranks are in the order of their magnitudes. -/
theorem strictMono_unitsOf : StrictMono unitsOf := strictMono_nat_of_lt_succ unitsOf_lt_succ

def signedUnits (d : Double) : Int := if d.negative then -d.units else d.units

/-- Doubles are equal if they are the same number. -/
theorem equal_iff {a b : Double} : a.equal b = true ↔ a.signedUnits = b.signedUnits := by
  have hrank : a.rank = b.rank ↔ a.units = b.units := strictMono_unitsOf.injective.eq_iff.symm
  have hzero : a.rank = 0 ↔ a.units = 0 := by
    rw [← strictMono_unitsOf.injective.eq_iff, unitsOf_of_le (Nat.zero_le _), units_eq]
  simp only [equal, isZero, Bool.and_eq_true, Bool.or_eq_true, beq_iff_eq, hrank, hzero,
    signedUnits]
  cases a.negative <;> cases b.negative <;> simp <;> omega

/-! ### Ranks nearest to a quotient -/

section Nearest

variable {n d s : Nat}

lemma div_scale_lt (hs : s = (n / d).log2 - 52) : n / (d * 2 ^ s) < 2 ^ 53 := by
  rw [← Nat.div_div_eq_div_mul, Nat.div_lt_iff_lt_mul (Nat.two_pow_pos s), ← Nat.pow_add]
  exact Nat.lt_of_lt_of_le Nat.lt_log2_self (Nat.pow_le_pow_right (by omega) (by omega))

/-- In the scale of a quotient, the numbers on both sides of it are mantissas. -/
lemma unitsOf_side (hs : s = (n / d).log2 - 52) {m : Nat} (hlow : n / (d * 2 ^ s) ≤ m)
    (hhigh : m ≤ n / (d * 2 ^ s) + 1) : unitsOf (s * 2 ^ 52 + m) = m * 2 ^ s := by
  have hbelow := div_scale_lt hs
  by_cases hscale : s = 0
  · subst hscale
    rw [Nat.zero_mul, Nat.zero_add, Nat.pow_zero, Nat.mul_one]
    exact unitsOf_of_le (by omega)
  · have hquotient : n / d ≠ 0 := by
      intro h
      rw [h] at hs
      exact hscale hs
    have habove : 2 ^ 52 ≤ n / (d * 2 ^ s) := by
      rw [← Nat.div_div_eq_div_mul, Nat.le_div_iff_mul_le (Nat.two_pow_pos s), ← Nat.pow_add]
      exact Nat.le_trans (Nat.pow_le_pow_right (by omega) (by omega)) (Nat.log2_self_le hquotient)
    exact unitsOf_add (by omega) (by omega)

lemma rankNearest_eq (hs : s = (n / d).log2 - 52) :
    rankNearest n d = s * 2 ^ 52 + roundHalfEven n (d * 2 ^ s) := by
  rw [rankNearest, ← hs]
  rfl

lemma unitsOf_rankNearest (hs : s = (n / d).log2 - 52) :
    unitsOf (rankNearest n d) = roundHalfEven n (d * 2 ^ s) * 2 ^ s := by
  rw [rankNearest_eq hs, unitsOf_side hs (div_le_roundHalfEven ..) (roundHalfEven_le_div ..)]

/-- No magnitude lies between the two sides of a quotient. -/
lemma unitsOf_mul_le_or (hs : s = (n / d).log2 - 52) (rank : Nat) :
    unitsOf rank * d ≤ n / (d * 2 ^ s) * (d * 2 ^ s) ∨
      (n / (d * 2 ^ s) + 1) * (d * 2 ^ s) ≤ unitsOf rank * d := by
  have hmul (m : Nat) : m * (d * 2 ^ s) = m * 2 ^ s * d := by ring
  rw [hmul, hmul]
  by_cases hside : rank ≤ s * 2 ^ 52 + n / (d * 2 ^ s)
  · left
    rw [← unitsOf_side hs (Nat.le_refl _) (Nat.le_succ _)]
    exact Nat.mul_le_mul_right d (strictMono_unitsOf.monotone hside)
  · right
    rw [← unitsOf_side hs (Nat.le_succ _) (Nat.le_refl _)]
    exact Nat.mul_le_mul_right d (strictMono_unitsOf.monotone (by omega))

/-- How far the magnitude of a rank is from `n / d` units, multiplied by `d`. -/
def distance (n d rank : Nat) : Nat := ((unitsOf rank * d : Nat) - (n : Int)).natAbs

/-- What a quotient is rounded to, in steps of its scale. -/
lemma unitsOf_rankNearest_mul (hs : s = (n / d).log2 - 52) :
    unitsOf (rankNearest n d) * d = roundHalfEven n (d * 2 ^ s) * (d * 2 ^ s) := by
  rw [unitsOf_rankNearest hs]
  ring

/-- No rank is nearer to a quotient than the one that it is rounded to. -/
theorem rankNearest_nearest (n : Nat) {d : Nat} (hd : 0 < d) (rank : Nat) :
    distance n d (rankNearest n d) ≤ distance n d rank := by
  obtain ⟨s, hs⟩ : ∃ s, s = (n / d).log2 - 52 := ⟨_, rfl⟩
  have hside := unitsOf_mul_le_or hs rank
  have hdivision := Nat.div_add_mod' n (d * 2 ^ s)
  have hmod : n % (d * 2 ^ s) < d * 2 ^ s := Nat.mod_lt n (by positivity)
  rw [Nat.add_mul, Nat.one_mul] at hside
  rw [distance, distance, unitsOf_rankNearest_mul hs]
  rcases roundHalfEven_cases n (d * 2 ^ s) with ⟨hround, hhalf⟩ | ⟨hround, hhalf⟩
  · rw [hround]
    omega
  · rw [hround, Nat.add_mul, Nat.one_mul]
    omega

/-- The rank that a quotient is rounded to is even if another one is as near. -/
theorem rankNearest_even_of_tie {n d rank : Nat} (hd : 0 < d) (hne : rank ≠ rankNearest n d)
    (h : distance n d rank = distance n d (rankNearest n d)) : rankNearest n d % 2 = 0 := by
  obtain ⟨s, hs⟩ : ∃ s, s = (n / d).log2 - 52 := ⟨_, rfl⟩
  have hside := unitsOf_mul_le_or hs rank
  have hdivision := Nat.div_add_mod' n (d * 2 ^ s)
  have hmod : n % (d * 2 ^ s) < d * 2 ^ s := Nat.mod_lt n (by positivity)
  have hother : unitsOf rank * d ≠ unitsOf (rankNearest n d) * d := by
    intro he
    exact hne (strictMono_unitsOf.injective (Nat.eq_of_mul_eq_mul_right hd he))
  rw [Nat.add_mul, Nat.one_mul] at hside
  rw [distance, distance, unitsOf_rankNearest_mul hs] at h
  rw [unitsOf_rankNearest_mul hs] at hother
  rw [rankNearest_eq hs]
  rcases roundHalfEven_cases n (d * 2 ^ s) with ⟨hround, hhalf⟩ | ⟨hround, hhalf⟩
  · rw [hround] at h hother ⊢
    omega
  · rw [hround, Nat.add_mul, Nat.one_mul] at h hother
    rw [hround]
    omega

end Nearest

/-! ### Integers -/

/-- The distance of doubles around a natural number: they have 53 binary digits. -/
def spacing (a : Nat) : Nat := 2 ^ (a.log2 - 52)

lemma spacing_pos (a : Nat) : 0 < spacing a := Nat.two_pow_pos _

/-- A natural number rounded to 53 binary digits. -/
def roundedNat (a : Nat) : Nat := roundHalfEven a (spacing a) * spacing a

/-- An integer rounded to 53 binary digits. -/
def rounded (n : Int) : Int := n.sign * roundedNat n.natAbs

lemma log2_mul_two_pow {a : Nat} (ha : a ≠ 0) (e : Nat) : (a * 2 ^ e).log2 = a.log2 + e := by
  induction e with
  | zero => simp
  | succ e ih =>
    have hpos : a * 2 ^ e ≠ 0 := by positivity
    rw [Nat.pow_succ', ← Nat.mul_assoc, Nat.mul_comm a 2, Nat.mul_assoc, Nat.log2_two_mul hpos, ih]
    rfl

lemma roundedNat_of_lt {a : Nat} (h : a < 2 ^ 53) : roundedNat a = a := by
  have hspacing : spacing a = 1 := by
    by_cases ha : a = 0
    · rw [ha]
      rfl
    · have hlog : a.log2 < 53 := (Nat.log2_lt ha).2 h
      rw [spacing, show a.log2 - 52 = 0 by omega, Nat.pow_zero]
  rw [roundedNat, hspacing, Nat.mul_one]
  simpa using roundHalfEven_mul_self a Nat.one_pos

@[simp] lemma roundedNat_zero : roundedNat 0 = 0 := roundedNat_of_lt (Nat.two_pow_pos 53)

lemma two_pow_le_roundedNat {a : Nat} (ha : 2 ^ 53 ≤ a) : 2 ^ 53 ≤ roundedNat a := by
  have hne : a ≠ 0 := by omega
  have hlog : 53 ≤ a.log2 := (Nat.le_log2 hne).2 ha
  have hscale : 2 ^ a.log2 = 2 ^ 52 * spacing a := two_pow_eq_mul (by omega)
  have hdigits : 2 ^ 52 ≤ a / spacing a := by
    rw [Nat.le_div_iff_mul_le (spacing_pos a), ← hscale]
    exact Nat.log2_self_le hne
  calc 2 ^ 53 ≤ 2 ^ a.log2 := Nat.pow_le_pow_right (by omega) hlog
    _ = 2 ^ 52 * spacing a := hscale
    _ ≤ roundedNat a :=
      Nat.mul_le_mul_right _ (Nat.le_trans hdigits (div_le_roundHalfEven a (spacing a)))

/-- An integer moves by at most half of the distance of doubles. -/
lemma two_mul_dist_roundedNat_le (a : Nat) :
    2 * ((roundedNat a : Int) - a).natAbs ≤ spacing a := by
  have hdivision := Nat.div_add_mod' a (spacing a)
  have hmod : a % spacing a < spacing a := Nat.mod_lt a (spacing_pos a)
  rw [roundedNat]
  rcases roundHalfEven_cases a (spacing a) with ⟨hround, hhalf⟩ | ⟨hround, hhalf⟩
  · rw [hround]
    omega
  · rw [hround, Nat.add_mul, Nat.one_mul]
    omega

/-- Rounding a number of steps of a scale, be it in units or as it is, gives the same. -/
lemma roundHalfEven_mul_eq {a : Nat} (ha : a ≠ 0) (e : Nat) :
    roundHalfEven (a * 2 ^ (e + 52)) (2 ^ (a.log2 + e)) * 2 ^ (a.log2 + e) =
      roundedNat a * 2 ^ (e + 52) := by
  by_cases hlarge : 52 ≤ a.log2
  · have hscale : 2 ^ (a.log2 + e) = spacing a * 2 ^ (e + 52) := two_pow_eq_mul (by omega)
    rw [hscale, roundHalfEven_mul_mul _ _ (Nat.two_pow_pos _), roundedNat, Nat.mul_assoc]
  · have hsmall : a < 2 ^ 53 := (Nat.log2_lt ha).1 (by omega)
    have hscale : 2 ^ (e + 52) = 2 ^ (52 - a.log2) * 2 ^ (a.log2 + e) := two_pow_eq_mul (by omega)
    rw [hscale, ← Nat.mul_assoc, roundHalfEven_mul_self _ (Nat.two_pow_pos _),
      roundedNat_of_lt hsmall, Nat.mul_assoc]

/-- One, in units. -/
lemma twoPow_1074 : twoPow 1074 = 2 ^ (1022 + 52) := twoPow_eq (1022 + 52)

/-- The scale of a natural number in units. -/
lemma scale_eq {a : Nat} (ha : a ≠ 0) :
    a.log2 + 1022 = (a * twoPow 1074 / 1).log2 - 52 := by
  rw [twoPow_1074, Nat.div_one, log2_mul_two_pow ha]
  omega

/-- The rank nearest to a natural number stands for the rounded number. -/
lemma unitsOf_rankNearest_natural (a : Nat) :
    unitsOf (rankNearest (a * twoPow 1074) 1) = roundedNat a * twoPow 1074 := by
  by_cases ha : a = 0
  · rw [ha, roundedNat_zero, Nat.zero_mul]
    rfl
  · rw [unitsOf_rankNearest (scale_eq ha), twoPow_1074, Nat.one_mul, roundHalfEven_mul_eq ha]

lemma rankNearest_natural_lt {a : Nat} (h : a < 2 ^ 64) :
    rankNearest (a * twoPow 1074) 1 < rankCount := by
  by_cases ha : a = 0
  · rw [ha, Nat.zero_mul]
    decide
  · have hlog : a.log2 < 64 := (Nat.log2_lt ha).2 h
    have hmantissa := div_scale_lt (scale_eq ha)
    have hround := roundHalfEven_le_div (a * twoPow 1074) (1 * 2 ^ (a.log2 + 1022))
    rw [rankNearest_eq (scale_eq ha), rankCount]
    omega

lemma rank_ofInt {n : Int} (h : n.natAbs < 2 ^ 64) :
    (ofInt n).rank = rankNearest (n.natAbs * twoPow 1074) 1 :=
  Nat.min_eq_left (Nat.le_sub_one_of_lt (rankNearest_natural_lt h))

/-- The double of an integer of 64 bits is the rounded integer. -/
theorem signedUnits_ofInt {n : Int} (h : n.natAbs < 2 ^ 64) :
    (ofInt n).signedUnits = rounded n * twoPow 1074 := by
  have hnegative : (ofInt n).negative = decide (n < 0) := rfl
  rw [signedUnits, units_eq, rank_ofInt h, unitsOf_rankNearest_natural, hnegative, rounded]
  generalize twoPow 1074 = unit
  by_cases hneg : n < 0
  · simp [hneg, Int.sign_eq_neg_one_of_neg hneg]
  · by_cases hzero : n = 0
    · simp [hzero]
    · have hpos : 0 < n := by omega
      simp [hneg, Int.sign_eq_one_of_pos hpos]

/-- The doubles of two integers of 64 bits are equal if the integers round alike. -/
theorem equal_ofInt_iff {m n : Int} (hm : m.natAbs < 2 ^ 64) (hn : n.natAbs < 2 ^ 64) :
    (ofInt m).equal (ofInt n) = true ↔ rounded m = rounded n := by
  have hunit : (twoPow 1074 : Int) ≠ 0 := by
    rw [twoPow_1074]
    positivity
  rw [equal_iff, signedUnits_ofInt hm, signedUnits_ofInt hn]
  exact Int.mul_eq_mul_right_iff hunit

/-- No double is nearer to an integer of 64 bits than the one that it becomes. -/
theorem ofInt_nearest {n : Int} (h : n.natAbs < 2 ^ 64) (d : Double) :
    ((ofInt n).signedUnits - n * twoPow 1074).natAbs ≤
      (d.signedUnits - n * twoPow 1074).natAbs := by
  have hnegative : (ofInt n).negative = decide (n < 0) := rfl
  have hsign : n * twoPow 1074 = if n < 0 then -((n.natAbs * twoPow 1074 : Nat) : Int)
      else (n.natAbs * twoPow 1074 : Nat) := by
    rw [Int.natCast_mul, ← Int.neg_mul]
    split
    · congr 1
      omega
    · congr 1
      omega
  -- A double of the other sign is not even as near as zero.
  have hnear := rankNearest_nearest (n.natAbs * twoPow 1074) Nat.one_pos d.rank
  have hzero := rankNearest_nearest (n.natAbs * twoPow 1074) Nat.one_pos 0
  rw [distance, distance, Nat.mul_one, Nat.mul_one] at hnear hzero
  rw [unitsOf_of_le (Nat.zero_le _)] at hzero
  rw [hsign, signedUnits, signedUnits, units_eq, units_eq, rank_ofInt h, hnegative]
  generalize unitsOf (rankNearest (n.natAbs * twoPow 1074) 1) = r at *
  generalize n.natAbs * twoPow 1074 = a at *
  by_cases hneg : n < 0
  · cases d.negative <;> simp [hneg] <;> omega
  · cases d.negative <;> simp [hneg] <;> omega

end GuardedData.Double
