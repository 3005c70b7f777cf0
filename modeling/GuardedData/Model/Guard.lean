import GuardedData.Model.Error

/-!
# The guard

The guard of a model counts credits. A guarded entry, the call of a method or of a computed setter,
adds one; a change of a watched value spends one, and a change that finds none was made from
outside. A credit is added when the entry is made and spent when the change arrives, which may be
later, so that overlapping entries each keep their own.

The number of credits is an integer without bounds, in place of a counter of 64 bits with a sign.
The two agree as long as fewer than `2⁶³` entries are made: in every run of a model the credits are
the entries made less the credits spent, and never negative (`GuardedData.Proofs.Model.Ledger`).
-/

namespace GuardedData

/-- The credits of a model. -/
structure Guard where
  credits : Int := 0
deriving DecidableEq

namespace Guard

/-- Add the credit of an entry. -/
def enter (g : Guard) : Guard := ⟨g.credits + 1⟩

/-- Spend a credit on a change at a path. -/
def settle (g : Guard) (path : String) : Except ModelError Guard :=
  if g.credits = 0 then .error (.immutable path)
  else if g.credits < 0 then .error (.creditsOff g.credits)
  else .ok ⟨g.credits - 1⟩

theorem settle_enter {g : Guard} (h : 0 ≤ g.credits) (path : String) :
    g.enter.settle path = .ok g := by
  have h0 : ¬g.credits + 1 = 0 := by omega
  have h1 : ¬g.credits + 1 < 0 := by omega
  simp [enter, settle, h0, h1]

theorem settle_eq_ok_iff {g g' : Guard} {path : String} :
    g.settle path = .ok g' ↔ 0 < g.credits ∧ g' = ⟨g.credits - 1⟩ := by
  unfold settle
  split
  · simp; omega
  · split
    · simp; omega
    · simp only [Except.ok.injEq]
      constructor
      · rintro rfl
        exact ⟨by omega, rfl⟩
      · exact fun h => h.2.symm

end Guard

end GuardedData
