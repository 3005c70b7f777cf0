import GuardedData.Proofs.Double.Rounding
import GuardedData.Schema.Predicates

/-!
# Integers as literals

A number is compared to a literal by way of the nearest doubles. An integer that is one of some
literals is always accepted. So is one that rounds to 53 binary digits as a literal does, which can
happen from `2⁵³` on, up to a distance of `2¹¹` (`Predicate.accepts_oneOf_integers_iff`).
-/

namespace GuardedData

namespace Double

variable {m n : Int}

lemma natAbs_rounded (n : Int) : (rounded n).natAbs = roundedNat n.natAbs := by
  rw [rounded, Int.natAbs_mul, Int.natAbs_sign, Int.natAbs_natCast]
  by_cases hzero : n = 0
  · simp [hzero]
  · simp [hzero]

lemma rounded_of_lt (h : n.natAbs < 2 ^ 53) : rounded n = n := by
  rw [rounded, roundedNat_of_lt h, Int.sign_mul_natAbs]

lemma natAbs_lt_iff_rounded : (rounded n).natAbs < 2 ^ 53 ↔ n.natAbs < 2 ^ 53 := by
  rw [natAbs_rounded]
  constructor
  · intro h
    by_contra hlarge
    exact absurd (two_pow_le_roundedNat (Nat.le_of_not_lt hlarge)) (Nat.not_le_of_lt h)
  · intro h
    rwa [roundedNat_of_lt h]

/-- Different integers round alike only from `2⁵³` on. -/
lemma rounded_eq_iff : rounded m = rounded n ↔
    m = n ∨ 2 ^ 53 ≤ m.natAbs ∧ 2 ^ 53 ≤ n.natAbs ∧ rounded m = rounded n := by
  constructor
  · intro h
    by_cases hm : m.natAbs < 2 ^ 53
    · have hn : n.natAbs < 2 ^ 53 := by
        rwa [← natAbs_lt_iff_rounded, ← h, natAbs_lt_iff_rounded]
      left
      rw [← rounded_of_lt hm, h, rounded_of_lt hn]
    · have hn : ¬n.natAbs < 2 ^ 53 := by
        rwa [← natAbs_lt_iff_rounded, ← h, natAbs_lt_iff_rounded]
      exact .inr ⟨Nat.le_of_not_lt hm, Nat.le_of_not_lt hn, h⟩
  · rintro (rfl | ⟨-, -, h⟩)
    · rfl
    · exact h

lemma spacing_le {a : Nat} (h : a < 2 ^ 64) : spacing a ≤ 2 ^ 11 := by
  refine Nat.pow_le_pow_right (by omega) ?_
  by_cases ha : a = 0
  · simp [ha]
  · have hlog : a.log2 < 64 := (Nat.log2_lt ha).2 h
    omega

/-- An integer of 64 bits moves by at most `2¹⁰`. -/
lemma dist_rounded_le (h : n.natAbs < 2 ^ 64) : (rounded n - n).natAbs ≤ 2 ^ 10 := by
  have hmove : (rounded n - n).natAbs = ((roundedNat n.natAbs : Int) - n.natAbs).natAbs := by
    rw [rounded]
    nth_rewrite 3 [← Int.sign_mul_natAbs n]
    rw [← Int.mul_sub, Int.natAbs_mul, Int.natAbs_sign]
    by_cases hzero : n = 0
    · simp [hzero]
    · simp [hzero]
  have hhalf := two_mul_dist_roundedNat_le n.natAbs
  have hspacing := spacing_le h
  omega

end Double

namespace Predicate

/-- Whether an integer fits 64 bits, with or without a sign. -/
def Fits (n : Int) : Prop := -0x8000000000000000 ≤ n ∧ n < 0x10000000000000000

lemma Fits.natAbs_lt {n : Int} (h : Fits n) : n.natAbs < 2 ^ 64 := by
  rw [Fits] at h
  omega

lemma matchesLiteral_ofInt (m n : Int) :
    matchesLiteral (.ofInt m) (.ofInt n) = (Double.ofInt m).equal (Double.ofInt n) := by
  have htoDouble (n : Int) : (Number.ofInt n).toDouble = Double.ofInt n := by
    rw [Number.ofInt]
    split <;> rfl
  rw [← htoDouble m, ← htoDouble n]
  rfl

lemma accepts_oneOf_ofInt_iff {literals : List Int} {n : Int} {path : DataPath} :
    (oneOf (literals.map .ofInt)).accepts (.ofInt n) path = true ↔
      ∃ m ∈ literals, (Double.ofInt m).equal (Double.ofInt n) = true := by
  show (literals.map Value.ofInt).any (matchesLiteral · (.ofInt n)) = true ↔ _
  simp only [List.any_map, List.any_eq_true, Function.comp_apply, matchesLiteral_ofInt]

/-- **Integer literals.** An integer passes for one of some literals exactly if it is one, or if it
rounds to 53 binary digits as a literal does, both from `2⁵³` on. A literal that rounds as it does
is at most `2¹¹` away. -/
theorem accepts_oneOf_integers_iff {literals : List Int} {n : Int} (path : DataPath)
    (hliterals : ∀ m ∈ literals, Fits m) (hn : Fits n) :
    ((oneOf (literals.map .ofInt)).accepts (.ofInt n) path = true ↔ n ∈ literals ∨
      ∃ m ∈ literals, 2 ^ 53 ≤ m.natAbs ∧ 2 ^ 53 ≤ n.natAbs ∧
        Double.rounded m = Double.rounded n) ∧
    ∀ m ∈ literals, Double.rounded m = Double.rounded n → (m - n).natAbs ≤ 2 ^ 11 := by
  constructor
  · rw [accepts_oneOf_ofInt_iff]
    constructor
    · rintro ⟨m, hmem, hequal⟩
      rw [Double.equal_ofInt_iff (hliterals m hmem).natAbs_lt hn.natAbs_lt] at hequal
      rcases Double.rounded_eq_iff.1 hequal with rfl | hlarge
      · exact .inl hmem
      · exact .inr ⟨m, hmem, hlarge⟩
    · rintro (hmem | ⟨m, hmem, -, -, hrounded⟩)
      · exact ⟨n, hmem, Double.equal_self _⟩
      · exact ⟨m, hmem,
          (Double.equal_ofInt_iff (hliterals m hmem).natAbs_lt hn.natAbs_lt).2 hrounded⟩
  · intro m hmem hrounded
    have hm := Double.dist_rounded_le (hliterals m hmem).natAbs_lt
    have hn := Double.dist_rounded_le hn.natAbs_lt
    omega

/-- The integer behind `2⁵³` is no double and passes for `2⁵³`. The one at `2⁵³ + 3` does not: it
rounds up, and to a literal but for the sign. -/
theorem accepts_oneOf_integers_iff_two_pow_53 :
    let literals : List Int := [3, 9007199254740992, -9007199254740996]
    let accepted (n : Int) : Bool :=
      (oneOf (literals.map .ofInt)).accepts (.ofInt n) (.root "x")
    9007199254740993 ∉ literals ∧ accepted 9007199254740993 = true ∧
      accepted 9007199254740995 = false ∧ accepted 3 = true := by
  intro literals accepted
  have hliterals : ∀ m ∈ literals, Fits m := by
    simp [literals, Fits]
  have hiff {n : Int} (hn : Fits n) :=
    (accepts_oneOf_integers_iff (.root "x") hliterals hn).1
  refine ⟨by decide, ?_, ?_, ?_⟩
  · refine (hiff (by simp [Fits])).2 (.inr ⟨9007199254740992, by decide, by decide, by decide, ?_⟩)
    decide
  · rw [← Bool.not_eq_true]
    intro h
    rcases (hiff (by simp [Fits])).1 h with hmem | ⟨m, hmem, -, -, hrounded⟩
    · exact absurd hmem (by decide)
    · revert m
      decide
  · exact (hiff (by simp [Fits])).2 (.inl (by decide))

end Predicate

end GuardedData
