import PlanFlow.Number.Shortest
import PlanFlow.Proofs.Decimal
import PlanFlow.Proofs.Rounding

/-!
The shortest numeral of a finite number reads back as the number. The search stays on grids until one of them has a
point in the interval of what rounds to the number, and the seventeenth grid always has one: its distance is less than
the width of the interval.
-/

set_option autoImplicit false

namespace PlanFlow

namespace Binary64

namespace Interval

structure Holds (i : Interval) (value : ℚ) : Prop where
  low : i.low ≤ value * i.unit
  high : value * i.unit ≤ i.high
  inner : i.closed = false → (i.low : ℚ) < value * i.unit ∧ value * i.unit < i.high

theorem contains_holds (i : Interval) (n : Nat) (inside : i.contains n = true) : i.Holds n := by
  unfold contains at inside
  split at inside
  · next closed =>
      simp only [Bool.and_eq_true, decide_eq_true_eq] at inside
      refine ⟨by exact_mod_cast inside.1, by exact_mod_cast inside.2, fun other => ?_⟩
      rw [closed] at other
      cases other
  · simp only [Bool.and_eq_true, decide_eq_true_eq] at inside
    have low : (i.low : ℚ) < n * i.unit := by exact_mod_cast inside.1
    have high : (n : ℚ) * i.unit < i.high := by exact_mod_cast inside.2
    exact ⟨low.le, high.le, fun _ => ⟨low, high⟩⟩

theorem on_grid_scaled (i : Interval) (position : Int) : ∃ c : ℚ, 0 < c ∧
    ((i.onGrid position).low : ℚ) = c * i.low ∧ ((i.onGrid position).middle : ℚ) = c * i.middle ∧
    ((i.onGrid position).high : ℚ) = c * i.high ∧ ((i.onGrid position).unit : ℚ) = c * i.unit * 10 ^ position := by
  by_cases up : 0 ≤ position
  · obtain ⟨n, rfl⟩ := Int.eq_ofNat_of_zero_le up
    refine ⟨1, one_pos, ?_⟩
    simp [onGrid]
  · have down : (10 : ℚ) ^ (-position).toNat * 10 ^ position = 1 := by
      rw [← zpow_natCast, ← zpow_add₀ (by norm_num)]
      have none : ((-position).toNat : Int) + position = 0 := by omega
      rw [none, zpow_zero]
    refine ⟨10 ^ (-position).toNat, by positivity, ?_⟩
    rw [onGrid, if_neg up]
    simp only [Nat.pow_eq, Nat.cast_mul, Nat.cast_pow, Nat.cast_ofNat]
    refine ⟨mul_comm _ _, mul_comm _ _, mul_comm _ _, ?_⟩
    linear_combination (-(i.unit : ℚ)) * down

theorem on_grid_closed (i : Interval) (position : Int) : (i.onGrid position).closed = i.closed := by
  unfold onGrid
  split <;> rfl

theorem on_grid_holds (i : Interval) (position : Int) (value : ℚ) (held : (i.onGrid position).Holds value) :
    i.Holds (value * 10 ^ position) := by
  obtain ⟨c, positive, low, _, high, unit⟩ := i.on_grid_scaled position
  have stretched : value * (i.onGrid position).unit = c * (value * 10 ^ position * i.unit) := by rw [unit]; ring
  obtain ⟨below, above, inner⟩ := held
  rw [stretched, low] at below
  rw [stretched, high] at above
  rw [stretched, low, high, on_grid_closed] at inner
  refine ⟨le_of_mul_le_mul_left below positive, le_of_mul_le_mul_left above positive, fun closed => ?_⟩
  obtain ⟨left, right⟩ := inner closed
  exact ⟨lt_of_mul_lt_mul_left left positive.le, lt_of_mul_lt_mul_left right positive.le⟩

theorem on_grid_reaches (i : Interval) (positive : 0 < i.unit) (position : Int) (m j : Nat) (steps : (j : Int) = m + position)
    (reached : 10 ^ j * i.unit ≤ i.middle) : 10 ^ m ≤ (i.onGrid position).middle / (i.onGrid position).unit := by
  obtain ⟨c, stretch, _, middle, _, unit⟩ := i.on_grid_scaled position
  have own : (0 : ℚ) < i.unit := by exact_mod_cast positive
  have cast : (10 : ℚ) ^ j * i.unit ≤ i.middle := by exact_mod_cast reached
  have power : (10 : ℚ) ^ m * 10 ^ position = 10 ^ j := by
    rw [← zpow_natCast, ← zpow_natCast, ← zpow_add₀ (by norm_num), steps]
  have filled : (0 : ℚ) < (i.onGrid position).unit := by
    rw [unit]
    positivity
  have stretched : (10 : ℚ) ^ m * (i.onGrid position).unit ≤ (i.onGrid position).middle := by
    calc (10 : ℚ) ^ m * (i.onGrid position).unit = c * (10 ^ m * 10 ^ position * i.unit) := by rw [unit]; ring
      _ ≤ (i.onGrid position).middle := by
          rw [power, middle]
          exact mul_le_mul_of_nonneg_left cast stretch.le
  refine (Nat.le_div_iff_mul_le ?_).mpr ?_
  · exact_mod_cast filled
  · exact_mod_cast stretched

theorem round_half_even_neighbour (num den : Nat) :
    roundHalfEven num den = num / den ∨ roundHalfEven num den = num / den + 1 := by
  unfold roundHalfEven
  dsimp only
  split_ifs <;> simp

theorem nearest_found (i : Interval) (n : Nat) (found : i.nearest? = some n) :
    i.contains n = true ∧ i.middle / i.unit ≤ n := by
  unfold nearest? at found
  dsimp only at found
  split_ifs at found with both below above
  · obtain rfl := Option.some.inj found
    simp only [Bool.and_eq_true] at both
    rcases round_half_even_neighbour i.middle i.unit with same | same <;> rw [same]
    · exact ⟨both.1, le_refl _⟩
    · exact ⟨both.2, Nat.le_succ _⟩
  · obtain rfl := Option.some.inj found
    exact ⟨below, le_refl _⟩
  · obtain rfl := Option.some.inj found
    exact ⟨above, Nat.le_succ _⟩

theorem nearest_of_neighbour (i : Interval)
    (inside : i.contains (i.middle / i.unit) = true ∨ i.contains (i.middle / i.unit + 1) = true) :
    ∃ n, i.nearest? = some n := by
  unfold nearest?
  dsimp only
  rcases inside with first | second
  · split_ifs <;> simp_all
  · split_ifs <;> simp_all

theorem nearest_exists (i : Interval) (positive : 0 < i.unit) (low : i.low ≤ i.middle) (high : i.middle < i.high)
    (wide : i.low + i.unit < i.high) : ∃ n, i.nearest? = some n := by
  have whole : i.unit * (i.middle / i.unit) + i.middle % i.unit = i.middle := Nat.div_add_mod _ _
  have rest := Nat.mod_lt i.middle positive
  have next : (i.middle / i.unit + 1) * i.unit = i.unit * (i.middle / i.unit) + i.unit := by ring
  have own : i.middle / i.unit * i.unit = i.unit * (i.middle / i.unit) := Nat.mul_comm _ _
  have inside : i.contains (i.middle / i.unit) = true ∨ i.contains (i.middle / i.unit + 1) = true := by
    by_cases below : i.low < i.middle / i.unit * i.unit
    · refine Or.inl ?_
      unfold contains
      split <;> simp only [Bool.and_eq_true, decide_eq_true_eq] <;> omega
    · refine Or.inr ?_
      unfold contains
      split <;> simp only [Bool.and_eq_true, decide_eq_true_eq] <;> omega
  exact i.nearest_of_neighbour inside

end Interval

theorem search_found (i : Interval) (more : Nat) (position : Int)
    (exists_grid : ∃ steps : Nat, steps < more ∧ ∃ n, (i.onGrid (position - steps)).nearest? = some n) :
    (i.onGrid (searchGrids i more position).2).nearest? = some (searchGrids i more position).1 := by
  induction more generalizing position with
  | zero =>
      obtain ⟨steps, few, _⟩ := exists_grid
      cases few
  | succ more ih =>
      cases found : (i.onGrid position).nearest? with
      | some digits => simp only [searchGrids, found]
      | none =>
          obtain ⟨steps, few, n, given⟩ := exists_grid
          cases steps with
          | zero =>
              rw [Nat.cast_zero, sub_zero, found] at given
              cases given
          | succ steps =>
              have later := ih (position - 1) ⟨steps, Nat.lt_of_succ_lt_succ few, n, by
                rw [← given]
                congr 2
                push_cast
                ring⟩
              simpa only [searchGrids, found] using later

theorem search_position (i : Interval) (more : Nat) (position : Int) (least : 0 ≤ position) (n : Nat)
    (whole : (i.onGrid 0).nearest? = some n) : 0 ≤ (searchGrids i more position).2 := by
  induction more generalizing position with
  | zero => exact least
  | succ more ih =>
      cases found : (i.onGrid position).nearest? with
      | some digits => simpa only [searchGrids, found] using least
      | none =>
          have above : position ≠ 0 := by
            rintro rfl
            rw [found] at whole
            cases whole
          simpa only [searchGrids, found] using ih (position - 1) (by omega)

theorem decimal_exponent_nonneg (num den : Nat) (whole : den ≤ num) : 0 ≤ decimalExponent num den := by
  have digits := Decimal.digit_count_pos (num / den)
  rw [decimalExponent, if_pos whole]
  omega

theorem leading_places_bound (fuel num den : Nat) (reached : den ≤ num * 10 ^ (fuel + 1)) :
    den ≤ num * 10 ^ leadingPlaces fuel num den := by
  induction fuel generalizing num with
  | zero => exact reached
  | succ fuel ih =>
      rw [leadingPlaces]
      split_ifs with first
      · rwa [pow_one]
      · have rest := ih (num * 10) (by rw [Nat.mul_assoc, ← Nat.pow_succ']; exact reached)
        rwa [Nat.mul_assoc, ← Nat.pow_succ', Nat.succ_eq_one_add] at rest

theorem decimal_exponent_bound (num den : Nat) (positive : 0 < den) (reached : den ≤ num * 10 ^ (400 + 1)) :
    (den : ℚ) * 10 ^ decimalExponent num den ≤ num := by
  unfold decimalExponent
  split_ifs with whole
  · have least := Decimal.digit_count_least (num / den) (Nat.div_pos whole positive)
    obtain ⟨n, length⟩ : ∃ n, (Nat.toDigits 10 (num / den)).length = n + 1 :=
      ⟨_, (Nat.succ_pred_eq_of_pos (Decimal.digit_count_pos _)).symm⟩
    rw [length, Nat.add_sub_cancel] at least
    rw [length, Nat.cast_succ, add_sub_cancel_right, zpow_natCast, mul_comm]
    exact_mod_cast (Nat.le_div_iff_mul_le positive).mp least
  · have places := leading_places_bound 400 num den reached
    generalize leadingPlaces 400 num den = n at places ⊢
    rw [zpow_neg, zpow_natCast, mul_inv_le_iff₀ (by positivity)]
    exact_mod_cast places

section

variable (x : Binary64)

theorem spacing_scale (n : Nat) (least : n = 1074) : (2 : ℚ) ^ (2 - x.scale) * x.spacing = 4 * (Nat.pow 2 n : Nat) := by
  have steps : (2 : Int) - x.scale + (x.exponent.val - 1 : Nat) = (n + 2 : Nat) := by
    unfold scale
    omega
  rw [spacing, Nat.cast_pow, Nat.cast_ofNat, ← zpow_natCast (2 : ℚ) (x.exponent.val - 1), ← zpow_add₀ two_ne_zero, steps,
    zpow_natCast, pow_add, Nat.pow_eq]
  push_cast
  ring

theorem around_scaled : ∃ c : ℚ, 0 < c ∧ ((Interval.around x).low : ℚ) = c * x.quartersBelow ∧
    ((Interval.around x).middle : ℚ) = c * (4 * x.significand) ∧ ((Interval.around x).high : ℚ) = c * x.quartersAbove ∧
    ((Interval.around x).unit : ℚ) = c * 2 ^ (2 - x.scale) := by
  by_cases whole : 2 ≤ x.scale
  · obtain ⟨n, scaled⟩ := Int.eq_ofNat_of_zero_le (sub_nonneg.mpr whole)
    have down : (2 : ℚ) ^ n * 2 ^ (2 - x.scale) = 1 := by
      rw [← zpow_natCast, ← zpow_add₀ two_ne_zero, ← scaled, sub_add_sub_cancel, sub_self, zpow_zero]
    refine ⟨2 ^ n, by positivity, ?_⟩
    simp [Interval.around, scaled, quartersBelow, quartersAbove, down, mul_comm]
  · have power : ((2 - x.scale).toNat : Int) = 2 - x.scale := Int.toNat_of_nonneg (by omega)
    refine ⟨1, one_pos, ?_⟩
    rw [← power, zpow_natCast]
    simp [Interval.around, whole, quartersBelow, quartersAbove, neg_sub]

theorem unit_pos : (0 : ℚ) < (Interval.around x).unit := by
  obtain ⟨c, stretch, _, _, _, unit⟩ := x.around_scaled
  rw [unit]
  positivity

theorem around_closed : (Interval.around x).closed = (x.significand % 2 == 0) := by
  unfold Interval.around
  dsimp only
  split <;> rfl

theorem around_holds (value : ℚ) (held : (Interval.around x).Holds value) :
    (x.quartersBelow : ℚ) ≤ value * 2 ^ (2 - x.scale) ∧ value * 2 ^ (2 - x.scale) ≤ x.quartersAbove ∧
    (x.significand % 2 = 1 →
      (x.quartersBelow : ℚ) < value * 2 ^ (2 - x.scale) ∧ value * 2 ^ (2 - x.scale) < x.quartersAbove) := by
  obtain ⟨c, stretch, low, _, high, unit⟩ := x.around_scaled
  obtain ⟨below, above, inner⟩ := held
  have stretched : value * (Interval.around x).unit = c * (value * 2 ^ (2 - x.scale)) := by rw [unit]; ring
  rw [stretched, low] at below
  rw [stretched, high] at above
  rw [stretched, low, high] at inner
  refine ⟨le_of_mul_le_mul_left below stretch, le_of_mul_le_mul_left above stretch, fun odd => ?_⟩
  obtain ⟨left, right⟩ := inner (by rw [around_closed, odd]; rfl)
  exact ⟨lt_of_mul_lt_mul_left left stretch.le, lt_of_mul_lt_mul_left right stretch.le⟩

-- What lies in the interval lies near the number. The power stays a variable, so that no step works it out.
theorem around_nears (n : Nat) (least : n = 1074) (num den : Nat) (positive : 0 < den)
    (held : (Interval.around x).Holds ((num : ℚ) / den)) : x.Nears (num * Nat.pow 2 n) den := by
  have spaced : 0 < x.spacing := Nat.two_pow_pos _
  have wide : (0 : ℚ) < den * x.spacing := by positivity
  have scaled := x.spacing_scale n least
  generalize Nat.pow 2 n = small at scaled ⊢
  have units : (num : ℚ) / den * 2 ^ (2 - x.scale) * (den * x.spacing) = 4 * (num * small) := by
    have own : (den : ℚ) ≠ 0 := by positivity
    calc (num : ℚ) / den * 2 ^ (2 - x.scale) * (den * x.spacing)
        = num / den * den * (2 ^ (2 - x.scale) * x.spacing) := by ring
      _ = num * (4 * small) := by rw [scaled, div_mul_cancel₀ _ own]
      _ = 4 * (num * small) := mul_left_comm _ _ _
  obtain ⟨below, above, inner⟩ := x.around_holds _ held
  have low := mul_le_mul_of_nonneg_right below wide.le
  have high := mul_le_mul_of_nonneg_right above wide.le
  rw [units] at low high
  refine ⟨by exact_mod_cast low, by exact_mod_cast high, fun odd => ?_⟩
  obtain ⟨left, right⟩ := inner odd
  have low_strict := mul_lt_mul_of_pos_right left wide
  have high_strict := mul_lt_mul_of_pos_right right wide
  rw [units] at low_strict high_strict
  exact ⟨by exact_mod_cast low_strict, by exact_mod_cast high_strict⟩

theorem of_ratio_held (finite : x.isFinite = true) (num den : Nat) (positive : 0 < den)
    (held : (Interval.around x).Holds ((num : ℚ) / den)) : ofRatio x.negative num den = x := by
  refine of_ratio_near x finite num den positive ?_
  generalize least : 1074 = n
  exact x.around_nears n least.symm num den positive held

theorem significand_pos (nonzero : x.isZero = false) : 0 < x.significand := by
  rcases Nat.eq_zero_or_pos x.exponent.val with low | normal
  · have exponent : x.exponent = noExponent := Fin.ext low
    have fraction : x.fraction ≠ noFraction := by simpa [isZero, exponent] using nonzero
    rw [significand, if_pos low]
    exact Nat.pos_of_ne_zero fun empty => fraction (Fin.ext empty)
  · rw [significand_normal x normal]
    exact Nat.lt_add_right _ (by decide)

theorem quarters_order (nonzero : x.isZero = false) :
    2 ≤ x.quartersBelow ∧ x.quartersBelow < 4 * x.significand ∧ 4 * x.significand < x.quartersAbove := by
  have positive := x.significand_pos nonzero
  unfold quartersBelow quartersAbove
  split_ifs <;> omega

theorem quarters_wide : 4 * x.significand + 10 ^ 16 * x.quartersBelow < 10 ^ 16 * x.quartersAbove := by
  have bound := x.significand_lt
  have count : fractionCount = 4503599627370496 := rfl
  unfold quartersBelow quartersAbove
  split_ifs with power
  · simp only [Bool.and_eq_true, decide_eq_true_eq] at power
    have whole := significand_normal x (Nat.lt_of_succ_lt power.2)
    omega
  · omega

theorem scale_least : -1074 ≤ x.scale := by
  unfold scale
  omega

theorem scale_bound (finite : x.isFinite = true) : x.scale ≤ 971 := by
  have bound := finite_exponent x finite
  unfold scale
  omega

theorem unit_bound (places : Nat) (enough : 2 ^ 1076 ≤ 10 ^ places) : (2 : ℚ) ^ (2 - x.scale) ≤ 10 ^ places := by
  have least := x.scale_least
  calc (2 : ℚ) ^ (2 - x.scale) ≤ 2 ^ ((1076 : Nat) : Int) := zpow_le_zpow_right₀ one_le_two (by omega)
    _ = ((2 ^ 1076 : Nat) : ℚ) := by rw [zpow_natCast, Nat.cast_pow, Nat.cast_ofNat]
    _ ≤ ((10 ^ places : Nat) : ℚ) := Nat.cast_le.mpr enough
    _ = 10 ^ places := by rw [Nat.cast_pow, Nat.cast_ofNat]

theorem held_least (nonzero : x.isZero = false) (value : ℚ) (held : (Interval.around x).Holds value) :
    1 < value * 10 ^ 341 := by
  obtain ⟨below, _⟩ := x.around_holds value held
  have two : (2 : ℚ) ≤ x.quartersBelow := by exact_mod_cast (x.quarters_order nonzero).1
  have small := x.unit_bound 341 (by decide +kernel)
  have positive : 0 < value := by
    refine pos_of_mul_pos_left (lt_of_lt_of_le two_pos (two.trans below)) ?_
    positivity
  calc (1 : ℚ) < 2 := one_lt_two
    _ ≤ value * 2 ^ (2 - x.scale) := two.trans below
    _ ≤ value * 10 ^ 341 := mul_le_mul_of_nonneg_left small positive.le

theorem held_bound (finite : x.isFinite = true) (value : ℚ) (held : (Interval.around x).Holds value) :
    value < 10 ^ 320 := by
  obtain ⟨_, above, _⟩ := x.around_holds value held
  have quarters : (x.quartersAbove : ℚ) ≤ 2 ^ 55 := by
    have bound := x.significand_lt
    have count : fractionCount = 4503599627370496 := rfl
    unfold quartersAbove
    exact_mod_cast (show 4 * x.significand + 2 ≤ 2 ^ 55 by omega)
  have back : value = value * 2 ^ (2 - x.scale) * 2 ^ (x.scale - 2) := by
    rw [mul_assoc, ← zpow_add₀ two_ne_zero, sub_add_sub_cancel, sub_self, zpow_zero, mul_one]
  have bound := x.scale_bound finite
  have powers : 2 ^ 1024 < 10 ^ 320 := by decide +kernel
  calc value = value * 2 ^ (2 - x.scale) * 2 ^ (x.scale - 2) := back
    _ ≤ 2 ^ 55 * 2 ^ (x.scale - 2) := mul_le_mul_of_nonneg_right (above.trans quarters) (by positivity)
    _ ≤ 2 ^ 55 * 2 ^ ((969 : Nat) : Int) :=
        mul_le_mul_of_nonneg_left (zpow_le_zpow_right₀ one_le_two (by omega)) (by positivity)
    _ = ((2 ^ 1024 : Nat) : ℚ) := by rw [zpow_natCast, ← pow_add, Nat.cast_pow, Nat.cast_ofNat]
    _ < ((10 ^ 320 : Nat) : ℚ) := Nat.cast_lt.mpr powers
    _ = 10 ^ 320 := by rw [Nat.cast_pow, Nat.cast_ofNat]

theorem held_small (low : x.exponent.val ≤ 1075) (value : ℚ) (held : (Interval.around x).Holds value) :
    value < 2 ^ 53 := by
  obtain ⟨_, above, _⟩ := x.around_holds value held
  have quarters : (x.quartersAbove : ℚ) < 2 ^ 53 * 4 := by
    have bound := x.significand_lt
    have count : fractionCount = 4503599627370496 := rfl
    unfold quartersAbove
    exact_mod_cast (show 4 * x.significand + 2 < 2 ^ 53 * 4 by omega)
  have four : (4 : ℚ) ≤ 2 ^ (2 - x.scale) := by
    have least : (2 : Int) ≤ 2 - x.scale := by
      unfold scale
      omega
    calc (4 : ℚ) = 2 ^ (2 : Int) := by norm_num
      _ ≤ 2 ^ (2 - x.scale) := zpow_le_zpow_right₀ one_le_two least
  by_contra large
  have more := mul_le_mul (not_lt.mp large) four (by norm_num) (le_trans (by positivity) (not_lt.mp large))
  exact absurd (more.trans above) (not_le.mpr quarters)

theorem held_large (high : 1076 ≤ x.exponent.val) (value : ℚ) (held : (Interval.around x).Holds value) :
    2 ^ 53 - 1 < value := by
  obtain ⟨below, _⟩ := x.around_holds value held
  have quarters : (2 : ℚ) ^ 54 - 1 ≤ x.quartersBelow := by
    have whole := x.significand_normal (by omega)
    have count : fractionCount = 4503599627370496 := rfl
    have least : 2 ^ 54 - 1 ≤ x.quartersBelow := by
      unfold quartersBelow
      split_ifs with power
      · omega
      · have odd : x.fraction.val ≠ 0 := fun zero => power (by simp [zero]; omega)
        omega
    have cast : ((2 ^ 54 - 1 : Nat) : ℚ) ≤ x.quartersBelow := Nat.cast_le.mpr least
    norm_num at cast ⊢
    exact cast
  have two : (2 : ℚ) ^ (2 - x.scale) ≤ 2 := by
    have most : 2 - x.scale ≤ 1 := by
      unfold scale
      omega
    calc (2 : ℚ) ^ (2 - x.scale) ≤ 2 ^ (1 : Int) := zpow_le_zpow_right₀ one_le_two most
      _ = 2 := zpow_one 2
  have positive : 0 < value := by
    refine pos_of_mul_pos_left (lt_of_lt_of_le (by norm_num) (quarters.trans below)) ?_
    positivity
  have double : (2 : ℚ) ^ 54 - 1 ≤ value * 2 := (quarters.trans below).trans (mul_le_mul_of_nonneg_left two positive.le)
  norm_num at double ⊢
  linarith

theorem scale_power (whole : 0 ≤ x.scale) : (2 : ℚ) ^ x.scale.toNat * 2 ^ (2 - x.scale) = 4 := by
  rw [← zpow_natCast, Int.toNat_of_nonneg whole, ← zpow_add₀ two_ne_zero, add_sub_cancel]
  norm_num

theorem held_below (whole : 0 ≤ x.scale) (limit : Nat) (aligned : 2 ^ x.scale.toNat ∣ limit)
    (less : x.significand * 2 ^ x.scale.toNat < limit) (value : ℚ) (held : (Interval.around x).Holds value) :
    value < limit := by
  obtain ⟨_, above, _⟩ := x.around_holds value held
  obtain ⟨steps, rfl⟩ := aligned
  have fewer : x.significand + 1 ≤ steps := by
    rw [Nat.mul_comm] at less
    exact Nat.lt_of_mul_lt_mul_left less
  have quarters : (x.quartersAbove : ℚ) < 4 * steps := by
    exact_mod_cast (show x.quartersAbove < 4 * steps by unfold quartersAbove; omega)
  have power : (0 : ℚ) < 2 ^ x.scale.toNat := by positivity
  have product : value * 4 < 4 * (2 ^ x.scale.toNat * steps) := by
    calc value * 4 = value * 2 ^ (2 - x.scale) * 2 ^ x.scale.toNat := by rw [← x.scale_power whole]; ring
      _ ≤ x.quartersAbove * 2 ^ x.scale.toNat := mul_le_mul_of_nonneg_right above power.le
      _ < 4 * steps * 2 ^ x.scale.toNat := mul_lt_mul_of_pos_right quarters power
      _ = 4 * (2 ^ x.scale.toNat * steps) := by ring
  push_cast
  linarith

theorem middle_whole (whole : 0 ≤ x.scale) :
    (Interval.around x).middle = x.significand * 2 ^ x.scale.toNat * (Interval.around x).unit := by
  obtain ⟨c, _, _, middle, _, unit⟩ := x.around_scaled
  have power := x.scale_power whole
  have same : ((Interval.around x).middle : ℚ) = x.significand * 2 ^ x.scale.toNat * (Interval.around x).unit := by
    rw [middle, unit]
    linear_combination (-(c * x.significand)) * power
  exact_mod_cast same

end

def Numeral.value (n : Numeral) : ℚ := n.digits * 10 ^ n.exponent

theorem Numeral.reduce_value (fuel : Nat) (n : Numeral) : (reduce fuel n).value = n.value := by
  induction fuel generalizing n with
  | zero => rfl
  | succ fuel ih =>
      rw [reduce]
      split
      · next tens =>
          simp only [Bool.and_eq_true, beq_iff_eq] at tens
          have whole : 10 * (n.digits / 10) = n.digits := Nat.mul_div_cancel' (Nat.dvd_of_mod_eq_zero tens.2)
          rw [ih, value, value, zpow_add_one₀ (by norm_num)]
          calc ((n.digits / 10 : Nat) : ℚ) * (10 ^ n.exponent * 10) = ((10 * (n.digits / 10) : Nat) : ℚ) * 10 ^ n.exponent := by
                push_cast
                ring
            _ = n.digits * 10 ^ n.exponent := by rw [whole]
      · rfl

theorem Numeral.reduce_exponent (fuel : Nat) (n : Numeral) : n.exponent ≤ (reduce fuel n).exponent := by
  induction fuel generalizing n with
  | zero => exact le_refl _
  | succ fuel ih =>
      rw [reduce]
      split
      · exact (Int.le_add_one (le_refl _)).trans (ih _)
      · exact le_refl _

theorem Numeral.value_size (n : Numeral) (filled : n.digits ≠ 0) :
    (10 : ℚ) ^ ((Nat.toDigits 10 n.digits).length + n.exponent - 1) ≤ n.value ∧
      n.value < 10 ^ ((Nat.toDigits 10 n.digits).length + n.exponent) := by
  have size := Decimal.digit_count_pos n.digits
  have below : n.digits < 10 ^ (Nat.toDigits 10 n.digits).length :=
    (Nat.length_toDigits_le_iff (by decide) size).mp (le_refl _)
  have least := Decimal.digit_count_least n.digits (Nat.pos_of_ne_zero filled)
  have places : (10 : ℚ) ^ ((Nat.toDigits 10 n.digits).length + n.exponent - 1) =
      (10 ^ ((Nat.toDigits 10 n.digits).length - 1) : Nat) * 10 ^ n.exponent := by
    rw [Nat.cast_pow, Nat.cast_ofNat, ← zpow_natCast, ← zpow_add₀ (by norm_num)]
    congr 1
    omega
  rw [places, zpow_add₀ (by norm_num), zpow_natCast, value]
  constructor
  · exact mul_le_mul_of_nonneg_right (by exact_mod_cast least) (by positivity)
  · exact mul_lt_mul_of_pos_right (by exact_mod_cast below) (by positivity)

section

variable (x : Binary64) (nonzero : x.isZero = false)

include nonzero

theorem middle_inside : (Interval.around x).low < (Interval.around x).middle ∧ (Interval.around x).middle < (Interval.around x).high := by
  obtain ⟨c, stretch, low, middle, high, _⟩ := x.around_scaled
  obtain ⟨_, below, above⟩ := x.quarters_order nonzero
  have below_cast : (x.quartersBelow : ℚ) < 4 * x.significand := by exact_mod_cast below
  have above_cast : (4 : ℚ) * x.significand < x.quartersAbove := by exact_mod_cast above
  have left : ((Interval.around x).low : ℚ) < (Interval.around x).middle := by
    rw [low, middle]
    exact mul_lt_mul_of_pos_left below_cast stretch
  have right : ((Interval.around x).middle : ℚ) < (Interval.around x).high := by
    rw [middle, high]
    exact mul_lt_mul_of_pos_left above_cast stretch
  exact ⟨by exact_mod_cast left, by exact_mod_cast right⟩

theorem start_bound :
    ((Interval.around x).unit : ℚ) * 10 ^ decimalExponent (Interval.around x).middle (Interval.around x).unit ≤
      (Interval.around x).middle := by
  obtain ⟨c, stretch, _, middle, _, unit⟩ := x.around_scaled
  have significand : (1 : ℚ) ≤ x.significand := by exact_mod_cast x.significand_pos nonzero
  have small := x.unit_bound (400 + 1) (by decide +kernel)
  have reached : ((Interval.around x).unit : ℚ) ≤ (Interval.around x).middle * 10 ^ (400 + 1) := by
    rw [unit, middle, mul_assoc]
    refine mul_le_mul_of_nonneg_left ?_ stretch.le
    calc (2 : ℚ) ^ (2 - x.scale) ≤ 1 * 10 ^ (400 + 1) := by rwa [one_mul]
      _ ≤ 4 * x.significand * 10 ^ (400 + 1) := mul_le_mul_of_nonneg_right (by linarith) (by positivity)
  exact decimal_exponent_bound _ _ (by exact_mod_cast x.unit_pos) (by exact_mod_cast reached)

theorem last_grid (start : Int) (bound : ((Interval.around x).unit : ℚ) * 10 ^ start ≤ (Interval.around x).middle) :
    ∃ n, ((Interval.around x).onGrid (start - 16)).nearest? = some n := by
  obtain ⟨c, stretch, low, middle, high, _⟩ := x.around_scaled
  obtain ⟨k, wide, grid_low, grid_middle, grid_high, grid_unit⟩ := (Interval.around x).on_grid_scaled (start - 16)
  obtain ⟨below, above⟩ := x.middle_inside nonzero
  have quarters : (4 : ℚ) * x.significand + 10 ^ 16 * x.quartersBelow < 10 ^ 16 * x.quartersAbove := by
    exact_mod_cast x.quarters_wide
  have step : (Interval.around x).unit * (10 : ℚ) ^ (start - 16) * 10 ^ 16 ≤ (Interval.around x).middle := by
    rw [mul_assoc, ← zpow_natCast, ← zpow_add₀ (by norm_num), Nat.cast_ofNat, sub_add_cancel]
    exact bound
  have room : (Interval.around x).low + (Interval.around x).unit * (10 : ℚ) ^ (start - 16) < (Interval.around x).high := by
    have product := mul_lt_mul_of_pos_left quarters stretch
    rw [low, high]
    rw [middle] at step
    linarith
  refine Interval.nearest_exists _ ?_ ?_ ?_ ?_
  · have positive : (0 : ℚ) < ((Interval.around x).onGrid (start - 16)).unit := by
      have own := x.unit_pos
      rw [grid_unit]
      positivity
    exact_mod_cast positive
  · have ordered : (((Interval.around x).onGrid (start - 16)).low : ℚ) ≤ ((Interval.around x).onGrid (start - 16)).middle := by
      rw [grid_low, grid_middle]
      exact mul_le_mul_of_nonneg_left (by exact_mod_cast below.le) wide.le
    exact_mod_cast ordered
  · have ordered : (((Interval.around x).onGrid (start - 16)).middle : ℚ) < ((Interval.around x).onGrid (start - 16)).high := by
      rw [grid_middle, grid_high]
      exact mul_lt_mul_of_pos_left (by exact_mod_cast above) wide
    exact_mod_cast ordered
  · have ordered : (((Interval.around x).onGrid (start - 16)).low : ℚ) + ((Interval.around x).onGrid (start - 16)).unit <
        ((Interval.around x).onGrid (start - 16)).high := by
      rw [grid_low, grid_high, grid_unit, mul_assoc, ← mul_add]
      exact mul_lt_mul_of_pos_left room wide
    exact_mod_cast ordered

theorem shortest_found : ∃ (n : Nat) (position : Int),
    ((Interval.around x).onGrid position).nearest? = some n ∧ x.shortest.value = n * 10 ^ position := by
  have found := search_found (Interval.around x) 17 _ ⟨16, by decide, x.last_grid nonzero _ (x.start_bound nonzero)⟩
  exact ⟨_, _, found, Numeral.reduce_value 20 _⟩

theorem shortest_holds : (Interval.around x).Holds x.shortest.value := by
  obtain ⟨n, position, found, value⟩ := x.shortest_found nonzero
  rw [value]
  exact Interval.on_grid_holds _ _ _ (Interval.contains_holds _ _ (Interval.nearest_found _ _ found).1)

theorem shortest_positive : 0 < x.shortest.value := by
  have least := x.held_least nonzero _ (x.shortest_holds nonzero)
  exact pos_of_mul_pos_left (one_pos.trans least) (by positivity)

-- A power of ten that the number reaches is reached by the numeral: it stands on the grid as well, or the grid has no
-- point below it but zero.
theorem shortest_reaches (j : Nat) (reached : 10 ^ j * (Interval.around x).unit ≤ (Interval.around x).middle) :
    (10 : ℚ) ^ j ≤ x.shortest.value := by
  have positive := x.shortest_positive nonzero
  obtain ⟨n, position, found, value⟩ := x.shortest_found nonzero
  have below := (Interval.nearest_found _ _ found).2
  rw [value] at positive ⊢
  rw [← zpow_natCast]
  by_cases fine : position ≤ j
  · obtain ⟨m, steps⟩ := Int.eq_ofNat_of_zero_le (sub_nonneg.mpr fine)
    have counted := (Interval.on_grid_reaches _ (by exact_mod_cast x.unit_pos) position m j (by omega) reached).trans below
    calc (10 : ℚ) ^ (j : Int) = 10 ^ m * 10 ^ position := by
          rw [← zpow_natCast, ← zpow_add₀ (by norm_num)]
          congr 1
          omega
      _ ≤ n * 10 ^ position := mul_le_mul_of_nonneg_right (by exact_mod_cast counted) (by positivity)
  · have counted : 0 < n := by
      rcases Nat.eq_zero_or_pos n with rfl | counted
      · simp at positive
      · exact counted
    have one : (1 : ℚ) ≤ n := by exact_mod_cast counted
    calc (10 : ℚ) ^ (j : Int) ≤ 10 ^ position := zpow_le_zpow_right₀ (by norm_num) (by omega)
      _ ≤ n * 10 ^ position := le_mul_of_one_le_left (by positivity) one

theorem shortest_whole (whole : 0 ≤ x.scale) : 0 ≤ x.shortest.exponent := by
  have middle := x.middle_whole whole
  have unit : 0 < (Interval.around x).unit := by exact_mod_cast x.unit_pos
  have filled : 0 < x.significand * 2 ^ x.scale.toNat := Nat.mul_pos (x.significand_pos nonzero) (Nat.two_pow_pos _)
  have start : 0 ≤ decimalExponent (Interval.around x).middle (Interval.around x).unit := by
    refine decimal_exponent_nonneg _ _ ?_
    rw [middle]
    exact Nat.le_mul_of_pos_left _ filled
  obtain ⟨n, point⟩ : ∃ n, ((Interval.around x).onGrid 0).nearest? = some n := by
    have own : (Interval.around x).onGrid 0 = Interval.around x := by simp [Interval.onGrid]
    have quotient : (Interval.around x).middle / (Interval.around x).unit = x.significand * 2 ^ x.scale.toNat := by
      rw [middle, Nat.mul_div_cancel _ unit]
    obtain ⟨below, above⟩ := x.middle_inside nonzero
    rw [own]
    refine Interval.nearest_of_neighbour _ (.inl ?_)
    rw [quotient, Interval.contains, ← middle]
    split <;> simp only [Bool.and_eq_true, decide_eq_true_eq] <;> omega
  exact (search_position _ 17 _ start n point).trans (Numeral.reduce_exponent 20 _)

variable (finite : x.isFinite = true)

include finite

theorem held_size (n : Numeral) (held : (Interval.around x).Holds n.value) :
    n.digits ≠ 0 ∧ -340 ≤ (Nat.toDigits 10 n.digits).length + n.exponent ∧
      (Nat.toDigits 10 n.digits).length + n.exponent ≤ 320 := by
  have least := x.held_least nonzero _ held
  have bound := x.held_bound finite _ held
  have filled : n.digits ≠ 0 := by
    intro empty
    norm_num [Numeral.value, empty] at least
  obtain ⟨low, high⟩ := n.value_size filled
  refine ⟨filled, Int.not_lt.mp fun less => ?_, Int.not_lt.mp fun more => ?_⟩
  · have tiny : (10 : ℚ) ^ ((Nat.toDigits 10 n.digits).length + n.exponent) * 10 ^ 341 ≤ 1 := by
      rw [← zpow_natCast, ← zpow_add₀ (by norm_num)]
      exact zpow_le_one_of_nonpos₀ (by norm_num) (by push_cast; omega)
    have product := mul_le_mul_of_nonneg_right high.le (show (0 : ℚ) ≤ 10 ^ 341 by positivity)
    exact absurd least (not_lt.mpr (product.trans tiny))
  · have huge : (10 : ℚ) ^ 320 ≤ 10 ^ ((Nat.toDigits 10 n.digits).length + n.exponent - 1) := by
      rw [← zpow_natCast]
      exact zpow_le_zpow_right₀ (by norm_num) (by push_cast; omega)
    exact absurd bound (not_lt.mpr (huge.trans low))

theorem of_decimal_held (n : Numeral) (held : (Interval.around x).Holds n.value) :
    ofDecimal x.negative n.digits n.exponent = x := by
  obtain ⟨filled, least, bound⟩ := x.held_size nonzero finite n held
  unfold ofDecimal
  simp only [filled, Int.not_lt.mpr least, Int.not_lt.mpr bound, decide_false, Bool.false_or, if_false]
  rw [Numeral.value] at held
  by_cases whole : 0 ≤ n.exponent
  · obtain ⟨m, up⟩ := Int.eq_ofNat_of_zero_le whole
    rw [if_neg (by decide), if_pos whole]
    refine x.of_ratio_held finite _ 1 one_pos ?_
    convert held using 1
    rw [up]
    push_cast
    simp
  · obtain ⟨m, down⟩ : ∃ m : Nat, -n.exponent = m := ⟨(-n.exponent).toNat, by omega⟩
    rw [if_neg (by decide), if_neg whole, down]
    refine x.of_ratio_held finite _ _ (Nat.pow_pos (by decide)) ?_
    convert held using 1
    rw [show n.exponent = -(m : Int) by omega, zpow_neg]
    simp [div_eq_mul_inv]

theorem shortest_reads : ofDecimal x.negative x.shortest.digits x.shortest.exponent = x :=
  x.of_decimal_held nonzero finite _ (x.shortest_holds nonzero)

end

end Binary64

end PlanFlow
