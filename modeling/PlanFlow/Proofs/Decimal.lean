import Mathlib
import PlanFlow.Number.Decimal

/-!
The digits of natural numbers. Reading them back gives the number, and there is no zero in front of others.
-/

set_option autoImplicit false

namespace PlanFlow

namespace Decimal

theorem digit_of_char (c : Char) (digit : c.isDigit = true) : CodePoint.isDigit (CodePoint.ofChar c) = true := by
  have value : (CodePoint.ofChar c).val = c.val.toNat := rfl
  simp only [Char.isDigit, Bool.and_eq_true, decide_eq_true_eq, ge_iff_le, UInt32.le_iff_toNat_le] at digit
  simp only [CodePoint.isDigit, value, Bool.and_eq_true, decide_eq_true_eq]
  exact digit

theorem digit_of_mem (n : Nat) (c : CodePoint) (member : c ∈ ofNat n) : CodePoint.isDigit c = true := by
  obtain ⟨character, inside, rfl⟩ := List.mem_map.mp member
  exact digit_of_char character (Nat.isDigit_of_mem_toDigits (by decide) (by decide) inside)

theorem of_nat_ne_nil (n : Nat) : ofNat n ≠ [] := fun empty => Nat.toDigits_ne_nil (List.map_eq_nil_iff.mp empty)

theorem length_pos (n : Nat) : 0 < (ofNat n).length := List.length_pos_iff.mpr (of_nat_ne_nil n)

theorem digit_count_pos (n : Nat) : 0 < (Nat.toDigits 10 n).length := List.length_pos_iff.mpr Nat.toDigits_ne_nil

theorem digit_count_least (n : Nat) (positive : 0 < n) : 10 ^ ((Nat.toDigits 10 n).length - 1) ≤ n := by
  rcases Nat.eq_zero_or_pos ((Nat.toDigits 10 n).length - 1) with single | more
  · rwa [single, pow_zero]
  · refine Nat.le_of_not_lt fun less => ?_
    have short := (Nat.length_toDigits_le_iff (by decide) more).mpr less
    omega

theorem value_of_chars (characters : List Char) (start : Nat) :
    (characters.map CodePoint.ofChar).foldl (fun v c => 10 * v + (c.val - 0x30)) start =
      Nat.ofDigitChars 10 characters start := by
  induction characters generalizing start with
  | nil => rfl
  | cons head tail ih =>
      rw [List.map_cons, List.foldl_cons, ih, Nat.ofDigitChars_cons]
      rfl

theorem value_of_nat (n : Nat) : value (ofNat n) = n := by
  rw [value, ofNat, value_of_chars, Nat.ofDigitChars_toDigits (by decide) (by decide)]

theorem lead_of_positive (n : Nat) (positive : 0 < n) : (ofNat n).head? ≠ some ('0' : CodePoint) := by
  induction n using Nat.strongRecOn with
  | ind n ih =>
      by_cases small : n < 10
      · rw [ofNat, Nat.toDigits_of_lt_base small]
        interval_cases n <;> decide
      · have front := ih (n / 10) (by omega) (by omega)
        have parts : ofNat n = ofNat (n / 10) ++ [(CodePoint.ofChar (n % 10).digitChar)] := by
          rw [ofNat, Nat.toDigits_of_base_le (by decide) (by omega), List.map_append]
          rfl
        rw [parts, List.head?_append_of_ne_nil _ (of_nat_ne_nil _)]
        exact front

theorem of_zero : ofNat 0 = ['0'] := rfl

theorem length_le_iff (n limit : Nat) (positive : 0 < limit) : (ofNat n).length ≤ limit ↔ n < 10 ^ limit := by
  rw [ofNat, List.length_map, Nat.length_toDigits_le_iff (by decide) positive]

theorem value_lt (digits : Text) (each : ∀ c ∈ digits, CodePoint.isDigit c = true) : value digits < 10 ^ digits.length := by
  induction digits using List.reverseRecOn with
  | nil => exact Nat.one_pos
  | append_singleton front c ih =>
      have before := ih fun d member => each d (List.mem_append_left _ member)
      have digit := each c (List.mem_append_right _ (List.mem_singleton_self c))
      have last : value (front ++ [c]) = 10 * value front + (c.val - 0x30) := List.foldl_append
      simp only [CodePoint.isDigit, Bool.and_eq_true, decide_eq_true_eq] at digit
      rw [last, List.length_append, List.length_singleton, pow_succ]
      omega

theorem printable_of_lt (n : Int) (small : n.natAbs < 10 ^ digitLimit) : printable n = true :=
  decide_eq_true ((length_le_iff n.natAbs digitLimit (by decide)).mpr small)

theorem printable_of_small (n : Int) (small : n.natAbs < 10 ^ 20) : printable n = true :=
  printable_of_lt n (small.trans_le (Nat.pow_le_pow_right (by decide) (by decide)))

theorem printable_of_digits (digits : Text) (each : ∀ c ∈ digits, CodePoint.isDigit c = true)
    (few : digits.length ≤ digitLimit) (n : Int) (size : n.natAbs = value digits) : printable n = true :=
  printable_of_lt n (size.trans_lt ((value_lt digits each).trans_le (Nat.pow_le_pow_right (by decide) few)))

theorem of_nat_tens (n k : Nat) (positive : 0 < n) :
    ofNat (n * 10 ^ k) = ofNat n ++ List.replicate k ('0' : CodePoint) := by
  induction k with
  | zero => rw [pow_zero, Nat.mul_one, List.replicate_zero, List.append_nil]
  | succ k ih =>
      have product : n * 10 ^ (k + 1) = 10 * (n * 10 ^ k) + 0 := by ring
      have filled : 0 < n * 10 ^ k := Nat.mul_pos positive (Nat.pow_pos (by decide))
      have digits := Nat.toDigits_append_toDigits (b := 10) (n := n * 10 ^ k) (d := 0) (by decide) filled (by decide)
      rw [product, ofNat, ← digits, List.map_append, List.replicate_succ', ← List.append_assoc, ← ih]
      rfl

theorem value_zeros (k : Nat) (digits : Text) : value (List.replicate k ('0' : CodePoint) ++ digits) = value digits := by
  induction k with
  | zero => rfl
  | succ k ih => exact ih

end Decimal

end PlanFlow
