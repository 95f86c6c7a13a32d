import Mathlib.Algebra.Order.Floor.Ring
import Mathlib.Data.Rat.Floor
import Mathlib.Tactic.LinearCombination
import Winex.PolygonModel
import Winex.RegionEdit

namespace Winex.Gdi

/-!
# Bresenham stepping

The columns of an edge are stepped without division.  After `k` scanlines the column is
the exact abscissa of the edge, rounded up: the error term keeps twice the distance to
the next column in units of the height.  Nothing overflows if the width and twice the
height fit into an `INT`.
-/

/-- The extent of an edge can be stepped in `INT`s. -/
structure StepsFit (dy x1 x2 : Int) : Prop where
  positive : 0 < dy
  height : FitsInt (2 * dy)
  width : FitsInt (x2 - x1)
  start : FitsInt x1
  finish : FitsInt x2

/-- `value` is `numerator / denominator`, rounded up. -/
def RoundsUp (numerator denominator value : Int) : Prop :=
  denominator * value - denominator < numerator ∧ numerator ≤ denominator * value

/-- The state of an edge to the right after `k` scanlines. -/
structure TracksRight (dy x1 dx k : Int) (bres : BresInfo) : Prop where
  column : RoundsUp (k * dx) dy (bres.minorAxis - x1)
  remainder : 0 ≤ dx - dy * bres.m ∧ dx - dy * bres.m < dy
  slope : 0 < bres.m1 ∧ bres.m1 = bres.m + 1
  incr1 : bres.incr1 = 2 * (dx - dy * bres.m) - 2 * dy
  incr2 : bres.incr2 = 2 * (dx - dy * bres.m)
  error : bres.d = 2 * ((k * dx - dy * (bres.minorAxis - x1)) + (dx - dy * bres.m))

/-- The state of an edge to the left after `k` scanlines. -/
structure TracksLeft (dy x1 dx k : Int) (bres : BresInfo) : Prop where
  column : RoundsUp (k * dx) dy (bres.minorAxis - x1)
  remainder : 0 ≤ dy * bres.m - dx ∧ dy * bres.m - dx < dy
  slope : ¬ 0 < bres.m1 ∧ bres.m1 = bres.m - 1
  incr1 : bres.incr1 = 2 * (dy * bres.m - dx) - 2 * dy
  incr2 : bres.incr2 = 2 * (dy * bres.m - dx)
  error : bres.d = 2 * ((dy * (bres.minorAxis - x1) - k * dx) + (dy * bres.m - dx)) - 2 * dy

section Steps

variable {dy x1 x2 : Int} (fits : StepsFit dy x1 x2)

include fits

variable {k : Int}

/-- Up to the end of the edge the column lies between its end points. -/
theorem StepsFit.column_fits {column : Int} (notNegative : 0 ≤ k) (inside : k ≤ dy)
    (rounds : RoundsUp (k * (x2 - x1)) dy (column - x1)) : FitsInt column := by
  obtain ⟨positive, -, -, _, _⟩ := fits
  obtain ⟨_, _⟩ := rounds
  unfold FitsInt at *
  rcases le_total 0 (x2 - x1) with right | left
  · have upper : k * (x2 - x1) ≤ dy * (x2 - x1) := mul_le_mul_of_nonneg_right inside right
    have lower : 0 ≤ k * (x2 - x1) := mul_nonneg notNegative right
    have : column - x1 - 1 < x2 - x1 := by
      refine lt_of_mul_lt_mul_left ?_ (le_of_lt positive)
      linarith
    have : 0 ≤ column - x1 := by
      refine le_of_mul_le_mul_left ?_ positive
      linarith
    omega
  · have lower : dy * (x2 - x1) ≤ k * (x2 - x1) := mul_le_mul_of_nonpos_right inside left
    have upper : k * (x2 - x1) ≤ 0 := mul_nonpos_of_nonneg_of_nonpos notNegative left
    have : column - x1 - 1 < 0 := by
      refine lt_of_mul_lt_mul_left ?_ (le_of_lt positive)
      linarith
    have : x2 - x1 ≤ column - x1 := by
      refine le_of_mul_le_mul_left ?_ positive
      linarith
    omega

/-- An edge starts on track. -/
theorem StepsFit.tracks_init (several : 1 < dy) :
    TracksRight dy x1 (x2 - x1) 0 (bresInitPgon dy x1 x2) ∨
      TracksLeft dy x1 (x2 - x1) 0 (bresInitPgon dy x1 x2) := by
  obtain ⟨positive, height, width, -⟩ := fits
  have division := Int.mul_tdiv_add_tmod (x2 - x1) dy
  have below := Int.tmod_lt_of_pos (x2 - x1) positive
  have above := Int.lt_tmod_of_pos (x2 - x1) positive
  have sign := Int.tmod_nonneg dy (a := x2 - x1)
  have sign' := Int.tmod_nonneg dy (a := -(x2 - x1))
  rw [Int.neg_tmod] at sign'
  unfold bresInitPgon
  dsimp only
  rw [wrapInt_of_fits width]
  generalize (x2 - x1).tmod dy = rest at *
  generalize (x2 - x1).tdiv dy = quotient at *
  generalize x2 - x1 = dx at *
  unfold FitsInt at height width
  -- the slope is less than half of the width
  have slopes (slope : Int) (near : quotient - 1 ≤ slope ∧ slope ≤ quotient + 1) :
      wrapInt slope = slope := by
    refine wrapInt_of_fits ?_
    unfold FitsInt
    rcases le_or_gt 0 quotient with notNegative | negative
    · have := mul_le_mul_of_nonneg_right (show 2 ≤ dy by omega) notNegative
      omega
    · have := mul_le_mul_of_nonpos_right (show 2 ≤ dy by omega) negative.le
      omega
  obtain rfl : rest = dx - dy * quotient := by linear_combination division
  rcases le_or_gt 0 dx with right | left
  · left
    rw [if_neg (not_lt.mpr right), slopes quotient (by omega), slopes (quotient + 1) (by omega),
      show 2 * dx - 2 * dy * (quotient + 1) = 2 * (dx - dy * quotient) - 2 * dy by ring,
      show 2 * dx - 2 * dy * quotient = 2 * (dx - dy * quotient) by ring,
      show -2 * quotient * dy + 2 * dx = 2 * (dx - dy * quotient) by ring,
      wrapInt_of_fits (by unfold FitsInt; omega), wrapInt_of_fits (by unfold FitsInt; omega)]
    refine ⟨?_, ⟨sign right, below⟩, ⟨lt_of_mul_lt_mul_left ?_ positive.le, rfl⟩, rfl, rfl, by ring⟩
    · simp [RoundsUp]
      omega
    · linarith
  · right
    rw [if_pos left, slopes quotient (by omega), slopes (quotient - 1) (by omega),
      show -2 * dx + 2 * dy * (quotient - 1) = 2 * (dy * quotient - dx) - 2 * dy by ring,
      show -2 * dx + 2 * dy * quotient = 2 * (dy * quotient - dx) by ring,
      show 2 * quotient * dy - 2 * dx - 2 * dy = 2 * (dy * quotient - dx) - 2 * dy by ring,
      wrapInt_of_fits (by unfold FitsInt; omega), wrapInt_of_fits (by unfold FitsInt; omega)]
    refine ⟨?_, ⟨by dsimp only; omega, by dsimp only; omega⟩,
      ⟨not_lt.mpr (le_of_mul_le_mul_left ?_ positive), rfl⟩, rfl, rfl, by ring⟩
    · simp [RoundsUp]
      omega
    · linarith

theorem StepsFit.stepped (column slope : Int) (notNegative : 0 ≤ k) (inside : k + 1 ≤ dy)
    (above : k * (x2 - x1) + (x2 - x1) ≤ dy * (column - x1) + dy * slope)
    (below : dy * (column - x1) + dy * slope < k * (x2 - x1) + (x2 - x1) + dy) :
    RoundsUp ((k + 1) * (x2 - x1)) dy (column + slope - x1) ∧
      wrapInt (column + slope) = column + slope ∧
      dy * (column + slope - x1) = dy * (column - x1) + dy * slope := by
  have sum : dy * (column + slope - x1) = dy * (column - x1) + dy * slope := by ring
  have rounds : RoundsUp ((k + 1) * (x2 - x1)) dy (column + slope - x1) := by
    simp only [RoundsUp, sum, add_one_mul]
    omega
  exact ⟨rounds, wrapInt_of_fits (fits.column_fits (by omega) inside rounds), sum⟩

theorem StepsFit.tracks_incr {bres : BresInfo} (notNegative : 0 ≤ k) (inside : k + 1 ≤ dy)
    (tracks : TracksRight dy x1 (x2 - x1) k bres ∨ TracksLeft dy x1 (x2 - x1) k bres) :
    TracksRight dy x1 (x2 - x1) (k + 1) (bresIncrPgon bres) ∨
      TracksLeft dy x1 (x2 - x1) (k + 1) (bresIncrPgon bres) := by
  have height := fits.height
  simp only [FitsInt] at height
  -- the directions differ in when they take the steeper slope
  refine tracks.imp (fun tracks => ?_) fun tracks => ?_
  all_goals
    obtain ⟨column, remainder, slope, incr1, incr2, _⟩ := tracks
    have steep := congrArg (dy * ·) slope.2
    simp only [mul_add, mul_sub, mul_one] at steep
    simp only [RoundsUp] at column
    unfold bresIncrPgon
    split
    next flips =>
      obtain ⟨rounds, wraps, sum⟩ :=
        fits.stepped bres.minorAxis bres.m1 notNegative inside (by omega) (by omega)
      rw [wraps, wrapInt_of_fits (by unfold FitsInt; omega)]
      exact ⟨rounds, remainder, slope, incr1, incr2, by simp only [sum, add_one_mul]; omega⟩
    next stays =>
      obtain ⟨rounds, wraps, sum⟩ :=
        fits.stepped bres.minorAxis bres.m notNegative inside (by omega) (by omega)
      rw [wraps, wrapInt_of_fits (by unfold FitsInt; omega)]
      exact ⟨rounds, remainder, slope, incr1, incr2, by simp only [sum, add_one_mul]; omega⟩

theorem StepsFit.tracks_iterate (several : 1 < dy) (k : Nat) (inside : (k : Int) ≤ dy) :
    TracksRight dy x1 (x2 - x1) k (bresIncrPgon^[k] (bresInitPgon dy x1 x2)) ∨
      TracksLeft dy x1 (x2 - x1) k (bresIncrPgon^[k] (bresInitPgon dy x1 x2)) := by
  induction k with
  | zero =>
    exact fits.tracks_init several
  | succ k ih =>
    rw [Function.iterate_succ_apply', Nat.cast_succ]
    exact fits.tracks_incr (Int.natCast_nonneg k) (by omega) (ih (by omega))

/-- Before the end of the edge the column is rounded up. -/
theorem StepsFit.roundsUp_iterate (k : Nat) (inside : (k : Int) < dy) :
    RoundsUp (k * (x2 - x1)) dy ((bresIncrPgon^[k] (bresInitPgon dy x1 x2)).minorAxis - x1) := by
  by_cases several : 1 < dy
  · exact (fits.tracks_iterate several k (by omega)).elim (·.column) (·.column)
  -- An edge of one scanline is never stepped.
  obtain rfl : k = 0 := by omega
  have start : (bresInitPgon dy x1 x2).minorAxis = x1 := by
    unfold bresInitPgon
    dsimp only
    split <;> rfl
  simp [start, RoundsUp]
  omega

/-- The column of an edge is its exact abscissa, rounded up. -/
theorem StepsFit.minorAxis_iterate (k : Nat) (inside : (k : Int) < dy) :
    (bresIncrPgon^[k] (bresInitPgon dy x1 x2)).minorAxis = ⌈(x1 : ℚ) + k * (x2 - x1) / dy⌉ := by
  obtain ⟨above, below⟩ := fits.roundsUp_iterate k inside
  have positive : (0 : ℚ) < dy := by exact_mod_cast fits.positive
  symm
  rw [Int.ceil_eq_iff]
  generalize (bresIncrPgon^[k] (bresInitPgon dy x1 x2)).minorAxis = column at above below
  constructor
  · have : ((column : ℚ) - 1 - x1) * dy < k * (x2 - x1) := by
      have exact : (column - 1 - x1) * dy < k * (x2 - x1) := by linarith
      exact_mod_cast exact
    have := (lt_div_iff₀ positive).mpr this
    linarith
  · have : (k : ℚ) * (x2 - x1) ≤ (column - x1) * dy := by
      have exact : k * (x2 - x1) ≤ (column - x1) * dy := by linarith
      exact_mod_cast exact
    have := (div_le_iff₀ positive).mpr this
    linarith

end Steps

end Winex.Gdi
