import Mathlib

/-!
Scaling of an absolute axis to hook coordinates.
The value is clamped to the axis and its distance from the minimum is scaled to sixteen bits. The
distance is taken in 32 bits and only its product in 64, so on an axis wider than that the
distance overflows before it is scaled.
-/

namespace KeysharpInput.Axis

/-- A signed result of `w + 1` bits; none for an overflow. -/
def checked (w : Nat) (x : Int) : Option Int :=
  if -2 ^ w ≤ x ∧ x < 2 ^ w then some x else none

def clamp (value minimum maximum : Int) : Int :=
  if value < minimum then minimum else if value > maximum then maximum else value

/-- `scale_abs_axis`; none for a signed overflow. -/
def scaleAbsAxis (value minimum maximum : Int) : Option Int :=
  if maximum ≤ minimum then some value
  else do
    let distance ← checked 31 (clamp value minimum maximum - minimum)
    let numerator ← checked 63 (distance * 65535)
    let denominator ← checked 63 (maximum - minimum)
    return (numerator.tdiv denominator).bmod (2 ^ 32)

def place (value minimum maximum : Int) : Int :=
  (clamp value minimum maximum - minimum) * 65535 / (maximum - minimum)

variable {value value' minimum maximum : Int}

theorem clamp_bounds (value : Int) (h : minimum < maximum) :
    minimum ≤ clamp value minimum maximum ∧ clamp value minimum maximum ≤ maximum := by
  unfold clamp
  split_ifs <;> omega

theorem place_bounds (value : Int) (h : minimum < maximum) :
    0 ≤ place value minimum maximum ∧ place value minimum maximum ≤ 65535 := by
  obtain ⟨hlow, hhigh⟩ := clamp_bounds value h
  constructor
  · exact Int.ediv_nonneg (by omega) (by omega)
  · exact Int.ediv_le_of_le_mul (by omega) (by nlinarith)

theorem place_mono (h : minimum < maximum) (hle : value ≤ value') :
    place value minimum maximum ≤ place value' minimum maximum := by
  have hclamp : clamp value minimum maximum ≤ clamp value' minimum maximum := by
    unfold clamp
    split_ifs <;> omega
  exact Int.ediv_le_ediv (by omega) (by omega)

section

variable (h : minimum < maximum) (hmin : -2 ^ 31 ≤ minimum) (hmax : maximum < 2 ^ 31)

include h hmin hmax

theorem scaleAbsAxis_eq (hvalue : min value maximum - minimum < 2 ^ 31) :
    scaleAbsAxis value minimum maximum = some (place value minimum maximum) := by
  have hclamp := clamp_bounds value h
  have hplace := place_bounds value h
  have hdistance : clamp value minimum maximum - minimum < 2 ^ 31 := by
    unfold clamp
    split_ifs <;> omega
  unfold scaleAbsAxis checked
  rw [if_neg (by omega), if_pos (by omega)]
  dsimp only [bind, Option.bind]
  rw [if_pos (by omega), if_pos (by omega)]
  dsimp only
  rw [Int.tdiv_eq_ediv_of_nonneg (by omega), ← place, Int.bmod_eq_of_le (by omega) (by omega)]
  rfl

theorem scaleAbsAxis_eq_some_iff {scaled : Int} :
    scaleAbsAxis value minimum maximum = some scaled ↔
      min value maximum - minimum < 2 ^ 31 ∧ place value minimum maximum = scaled := by
  constructor
  · intro hscaled
    have hvalue : min value maximum - minimum < 2 ^ 31 := by
      by_contra hwide
      -- the clamped value is not below the minimum here, so the distance is the one that overflows
      have hclamp : clamp value minimum maximum = min value maximum := by
        unfold clamp
        split_ifs <;> omega
      unfold scaleAbsAxis checked at hscaled
      rw [if_neg (by omega), hclamp, if_neg (by omega)] at hscaled
      simp at hscaled
    rw [scaleAbsAxis_eq h hmin hmax hvalue] at hscaled
    exact ⟨hvalue, Option.some.inj hscaled⟩
  · rintro ⟨hvalue, rfl⟩
    exact scaleAbsAxis_eq h hmin hmax hvalue

end

theorem place_of_le (hvalue : value ≤ minimum) (h : minimum < maximum) :
    place value minimum maximum = 0 := by
  have hclamp : clamp value minimum maximum = minimum := by
    unfold clamp
    split_ifs <;> omega
  simp [place, hclamp]

theorem place_of_ge (hvalue : maximum ≤ value) (h : minimum < maximum) :
    place value minimum maximum = 65535 := by
  have hclamp : clamp value minimum maximum = maximum := by
    unfold clamp
    split_ifs <;> omega
  rw [place, hclamp]
  exact Int.mul_ediv_cancel_left _ (by omega)

/-- On a 32-bit axis a value is scaled into sixteen bits, in order and with both ends fixed,
exactly when its distance from the minimum, taken no further than the maximum, fits 32 bits. -/
theorem scaleAbsAxis_spec (h : minimum < maximum) (hmin : -2 ^ 31 ≤ minimum)
    (hmax : maximum < 2 ^ 31) (value : Int) :
    (∃ scaled, scaleAbsAxis value minimum maximum = some scaled ∧
      0 ≤ scaled ∧ scaled ≤ 65535 ∧
      (value ≤ minimum → scaled = 0) ∧ (maximum ≤ value → scaled = 65535) ∧
      ∀ value' ≥ value, ∀ scaled', scaleAbsAxis value' minimum maximum = some scaled' →
        scaled ≤ scaled') ↔ min value maximum - minimum < 2 ^ 31 := by
  constructor
  · rintro ⟨scaled, hscaled, -⟩
    exact ((scaleAbsAxis_eq_some_iff h hmin hmax).mp hscaled).1
  · intro hvalue
    obtain ⟨hnonneg, hle⟩ := place_bounds value h
    refine ⟨_, scaleAbsAxis_eq h hmin hmax hvalue, hnonneg, hle, ?_, ?_, ?_⟩
    · intro hlow
      exact place_of_le hlow h
    · intro hhigh
      exact place_of_ge hhigh h
    · intro value' hvalue' scaled' hscaled'
      rw [← ((scaleAbsAxis_eq_some_iff h hmin hmax).mp hscaled').2]
      exact place_mono h hvalue'

theorem scaleAbsAxis_stick : ∃ scaled, scaleAbsAxis 512 (-1024) 1023 = some scaled ∧
    0 ≤ scaled ∧ scaled ≤ 65535 ∧
    ((512 : Int) ≤ -1024 → scaled = 0) ∧ ((1023 : Int) ≤ 512 → scaled = 65535) ∧
    ∀ value' ≥ 512, ∀ scaled', scaleAbsAxis value' (-1024) 1023 = some scaled' → scaled ≤ scaled' :=
  (scaleAbsAxis_spec (by decide) (by decide) (by decide) 512).mpr (by decide)

/-- An axis over all 32-bit values overflows in its upper half. -/
theorem scaleAbsAxis_wide : scaleAbsAxis 0 (-2 ^ 31) (2 ^ 31 - 1) = none := by
  decide

end KeysharpInput.Axis
