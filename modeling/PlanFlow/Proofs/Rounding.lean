import Mathlib
import PlanFlow.Number.Binary64

/-!
Rounding to the nearest floating-point number. Every ratio that lies no further from a finite number than half way to
its neighbours is rounded to that number; the half way points themselves are its own when its significand is even.
-/

set_option autoImplicit false

namespace PlanFlow

namespace Binary64

theorem round_half_even_eq (num den m : Nat) (positive : 0 < den) (low : 2 * (den * m) ≤ 2 * num + den)
    (high : 2 * num ≤ 2 * (den * m) + den)
    (tie : m % 2 = 1 → 2 * (den * m) < 2 * num + den ∧ 2 * num < 2 * (den * m) + den) : roundHalfEven num den = m := by
  have whole : den * (num / den) + num % den = num := Nat.div_add_mod num den
  have rest : num % den < den := Nat.mod_lt num positive
  unfold roundHalfEven
  generalize num / den = q at whole ⊢
  generalize num % den = r at whole rest ⊢
  rcases lt_trichotomy q m with below | same | above
  · obtain ⟨t, rfl⟩ : ∃ t, m = q + 1 + t := ⟨m - (q + 1), by omega⟩
    have product : den * (q + 1 + t) = den * q + den + den * t := by ring
    rw [product] at low high tie
    have next : t = 0 := by
      by_contra more
      have wide : den ≤ den * t := Nat.le_mul_of_pos_right den (Nat.pos_of_ne_zero more)
      omega
    subst next
    dsimp only
    split_ifs <;> omega
  · subst same
    dsimp only
    split_ifs <;> omega
  · obtain ⟨t, rfl⟩ : ∃ t, q = m + 1 + t := ⟨q - (m + 1), by omega⟩
    have product : den * (m + 1 + t) = den * m + den + den * t := by ring
    omega

def ofUnits (negative : Bool) (units den : Nat) : Binary64 :=
  pack negative (roundHalfEven units (den * Nat.pow 2 ((units / den).log2 - 52))) ((units / den).log2 - 52)

def spacing (x : Binary64) : Nat := 2 ^ (x.exponent.val - 1)

-- Quarters of the distance to the neighbours, from half way below to half way above. A power of two has its neighbour
-- below half as far away.
def quartersBelow (x : Binary64) : Nat :=
  4 * x.significand - if x.fraction.val = 0 && 1 < x.exponent.val then 1 else 2

def quartersAbove (x : Binary64) : Nat := 4 * x.significand + 2

structure Nears (x : Binary64) (units den : Nat) : Prop where
  low : x.quartersBelow * (den * x.spacing) ≤ 4 * units
  high : 4 * units ≤ x.quartersAbove * (den * x.spacing)
  tie : x.significand % 2 = 1 →
    x.quartersBelow * (den * x.spacing) < 4 * units ∧ 4 * units < x.quartersAbove * (den * x.spacing)

theorem finite_exponent (x : Binary64) (finite : x.isFinite = true) : x.exponent.val < 2047 := by
  have apart : x.exponent ≠ fullExponent := by simpa [isFinite] using finite
  have bound := x.exponent.isLt
  have other : x.exponent.val ≠ 2047 := fun same => apart (Fin.ext same)
  omega

theorem significand_normal (x : Binary64) (normal : 0 < x.exponent.val) :
    x.significand = fractionCount + x.fraction.val := if_neg (Nat.pos_iff_ne_zero.mp normal)

theorem significand_lt (x : Binary64) : x.significand < 2 * fractionCount := by
  have small := x.fraction.isLt
  by_cases low : x.exponent.val = 0
  · rw [significand, if_pos low, Nat.two_mul]
    exact Nat.lt_add_left _ small
  · rw [significand, if_neg low, Nat.two_mul]
    exact Nat.add_lt_add_left small fractionCount

theorem pack_self (x : Binary64) (finite : x.isFinite = true) :
    pack x.negative x.significand (x.exponent.val - 1) = x := by
  have bound := finite_exponent x finite
  have small := x.fraction.isLt
  rcases Nat.eq_zero_or_pos x.exponent.val with low | normal
  · have fraction : x.significand = x.fraction.val := if_pos low
    have exponent : x.exponent = noExponent := Fin.ext low
    rw [pack, dif_pos (fraction ▸ small)]
    exact congrArg₂ (Binary64.mk x.negative) exponent.symm (Fin.ext fraction)
  · have whole := significand_normal x normal
    have field : x.exponent.val - 1 + 1 = x.exponent.val := Nat.succ_pred_eq_of_pos normal
    have fraction : (x.significand - fractionCount) % fractionCount = x.fraction.val := by
      rw [whole, Nat.add_sub_cancel_left, Nat.mod_eq_of_lt small]
    rw [pack, dif_neg (by omega)]
    simp only [if_pos (significand_lt x), field, dif_pos bound]
    exact congrArg (Binary64.mk x.negative x.exponent) (Fin.ext fraction)

theorem pack_carried (x : Binary64) (finite : x.isFinite = true) (power : x.fraction.val = 0) (normal : 1 < x.exponent.val) :
    pack x.negative (2 * x.significand) (x.exponent.val - 2) = x := by
  have bound := finite_exponent x finite
  have whole : x.significand = fractionCount := by rw [significand_normal x (Nat.lt_of_succ_lt normal), power]
  have field : x.exponent.val - 2 + 2 = x.exponent.val := Nat.sub_add_cancel normal
  have fraction : (fractionCount - fractionCount) % fractionCount = x.fraction.val := by rw [Nat.sub_self, power, Nat.zero_mod]
  rw [whole, pack, dif_neg (by omega)]
  simp only [if_neg (Nat.lt_irrefl (2 * fractionCount)), field, dif_pos bound]
  exact congrArg (Binary64.mk x.negative x.exponent) (Fin.ext fraction)

theorem shift_eq (units den shift : Nat) (positive : 0 < den) (low : fractionCount * (den * 2 ^ shift) ≤ units)
    (high : units < 2 * fractionCount * (den * 2 ^ shift)) : (units / den).log2 - 52 = shift := by
  have least : 2 ^ (52 + shift) ≤ units / den := by
    rw [Nat.le_div_iff_mul_le positive, Nat.pow_add]
    calc 2 ^ 52 * 2 ^ shift * den = fractionCount * (den * 2 ^ shift) := by ring
      _ ≤ units := low
  have bound : units / den < 2 ^ (52 + shift + 1) := by
    rw [Nat.div_lt_iff_lt_mul positive, Nat.pow_succ, Nat.pow_add]
    calc units < 2 * fractionCount * (den * 2 ^ shift) := high
      _ = 2 ^ 52 * 2 ^ shift * 2 * den := by ring
  have filled : units / den ≠ 0 := Nat.ne_of_gt (Nat.lt_of_lt_of_le (Nat.two_pow_pos _) least)
  rw [(Nat.log2_eq_iff filled).mpr ⟨least, bound⟩, Nat.add_sub_cancel_left]

theorem quarters_below (x : Binary64) (distance : Nat) :
    4 * (distance * x.significand) ≤ x.quartersBelow * distance + 2 * distance := by
  have enough : 4 * x.significand ≤ x.quartersBelow + 2 := by
    unfold quartersBelow
    split_ifs <;> omega
  calc 4 * (distance * x.significand) = 4 * x.significand * distance := by ring
    _ ≤ (x.quartersBelow + 2) * distance := Nat.mul_le_mul_right distance enough
    _ = x.quartersBelow * distance + 2 * distance := by ring

theorem quarters_above (x : Binary64) (distance : Nat) :
    x.quartersAbove * distance = 4 * (distance * x.significand) + 2 * distance := by
  rw [quartersAbove]
  ring

theorem below_power (x : Binary64) (units den : Nat) (near : x.Nears units den) (normal : 1 < x.exponent.val)
    (less : units < fractionCount * (den * x.spacing)) :
    x.fraction.val = 0 ∧ 4 * (fractionCount * (den * x.spacing)) ≤ 4 * units + den * x.spacing := by
  have whole := significand_normal x (Nat.lt_of_succ_lt normal)
  have low := near.low
  have power : x.fraction.val = 0 := by
    by_contra odd
    have more : 4 * fractionCount ≤ x.quartersBelow := by
      rw [quartersBelow, if_neg (by simp [odd]), whole]
      omega
    have product := Nat.mul_le_mul_right (den * x.spacing) more
    rw [Nat.mul_assoc] at product
    omega
  have quarters : x.quartersBelow + 1 = 4 * fractionCount := by
    rw [quartersBelow, if_pos (by simp [power, normal]), whole, power]
    rfl
  refine ⟨power, ?_⟩
  calc 4 * (fractionCount * (den * x.spacing)) = (x.quartersBelow + 1) * (den * x.spacing) := by rw [quarters, Nat.mul_assoc]
    _ = x.quartersBelow * (den * x.spacing) + den * x.spacing := Nat.succ_mul _ _
    _ ≤ 4 * units + den * x.spacing := Nat.add_le_add_right low _

section

variable (x : Binary64) (units den : Nat) (positive : 0 < den) (near : x.Nears units den)

include positive near

theorem nears_round : roundHalfEven units (den * x.spacing) = x.significand := by
  have wide : 0 < den * x.spacing := Nat.mul_pos positive (Nat.two_pow_pos _)
  have below := x.quarters_below (den * x.spacing)
  have above := x.quarters_above (den * x.spacing)
  obtain ⟨low, high, tie⟩ := near
  refine round_half_even_eq _ _ _ wide (by omega) (by omega) fun odd => ?_
  have strict := tie odd
  omega

theorem nears_lt : units < 2 * fractionCount * (den * x.spacing) := by
  have wide : 0 < den * x.spacing := Nat.mul_pos positive (Nat.two_pow_pos _)
  have above := x.quarters_above (den * x.spacing)
  have small : den * x.spacing * x.significand + den * x.spacing ≤ 2 * fractionCount * (den * x.spacing) := by
    calc den * x.spacing * x.significand + den * x.spacing = (x.significand + 1) * (den * x.spacing) := by ring
      _ ≤ 2 * fractionCount * (den * x.spacing) := Nat.mul_le_mul_right _ (significand_lt x)
  have high := near.high
  omega

variable (finite : x.isFinite = true)

include finite

theorem low_round (low : x.exponent.val ≤ 1) : ofUnits x.negative units den = x := by
  have one : x.spacing = 1 := by rw [spacing, Nat.sub_eq_zero_of_le low, Nat.pow_zero]
  have bound := nears_lt x units den positive near
  have round := nears_round x units den positive near
  rw [one, Nat.mul_one] at bound round
  have short : (units / den).log2 < 53 := by
    by_cases empty : units / den = 0
    · rw [empty]
      decide
    · refine (Nat.log2_lt empty).mpr ((Nat.div_lt_iff_lt_mul positive).mpr ?_)
      exact bound
  have none : (units / den).log2 - 52 = 0 := by omega
  have own := pack_self x finite
  rw [Nat.sub_eq_zero_of_le low] at own
  rw [ofUnits, none, show Nat.pow 2 0 = 1 from rfl, Nat.mul_one, round, own]

theorem above_round (least : fractionCount * (den * x.spacing) ≤ units) : ofUnits x.negative units den = x := by
  have shift := shift_eq units den (x.exponent.val - 1) positive least (nears_lt x units den positive near)
  rw [ofUnits, shift]
  exact (congrArg (fun s => pack x.negative s _) (nears_round x units den positive near)).trans (pack_self x finite)

-- Below a power of two the ratio has one bit more, and rounding carries it up to the power of two.
theorem below_round (normal : 1 < x.exponent.val) (less : units < fractionCount * (den * x.spacing)) :
    ofUnits x.negative units den = x := by
  obtain ⟨power, close⟩ := below_power x units den near normal less
  have whole : x.significand = fractionCount := by rw [significand_normal x (Nat.lt_of_succ_lt normal), power]
  have halves : den * x.spacing = 2 * (den * 2 ^ (x.exponent.val - 2)) := by
    rw [spacing, show x.exponent.val - 1 = x.exponent.val - 2 + 1 by omega, Nat.pow_succ]
    ring
  have wide : 0 < den * 2 ^ (x.exponent.val - 2) := Nat.mul_pos positive (Nat.two_pow_pos _)
  have many : den * 2 ^ (x.exponent.val - 2) ≤ fractionCount * (den * 2 ^ (x.exponent.val - 2)) :=
    Nat.le_mul_of_pos_left _ (by decide)
  rw [halves, show fractionCount * (2 * (den * 2 ^ (x.exponent.val - 2))) =
    2 * (fractionCount * (den * 2 ^ (x.exponent.val - 2))) by ring] at close less
  have shift : (units / den).log2 - 52 = x.exponent.val - 2 :=
    shift_eq units den _ positive (by omega) (by rw [Nat.mul_assoc]; exact less)
  have twice : den * 2 ^ (x.exponent.val - 2) * (2 * x.significand) =
      2 * (fractionCount * (den * 2 ^ (x.exponent.val - 2))) := by
    rw [whole]
    ring
  have round : roundHalfEven units (den * 2 ^ (x.exponent.val - 2)) = 2 * x.significand := by
    refine round_half_even_eq _ _ _ wide (by omega) (by omega) fun odd => ?_
    omega
  rw [ofUnits, shift]
  exact (congrArg (fun s => pack x.negative s _) round).trans (pack_carried x finite power normal)

end

theorem of_ratio_near (x : Binary64) (finite : x.isFinite = true) (num den : Nat) (positive : 0 < den)
    (near : x.Nears (num * Nat.pow 2 1074) den) : ofRatio x.negative num den = x := by
  unfold ofRatio
  generalize num * Nat.pow 2 1074 = units at near ⊢
  by_cases normal : 1 < x.exponent.val
  · by_cases least : fractionCount * (den * x.spacing) ≤ units
    · exact above_round x units den positive near finite least
    · exact below_round x units den positive near finite normal (Nat.lt_of_not_le least)
  · exact low_round x units den positive near finite (Nat.le_of_not_lt normal)

end Binary64

end PlanFlow
