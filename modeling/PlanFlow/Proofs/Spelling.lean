import PlanFlow.Proofs.Decoding

/-!
Floating-point numbers as canonical text spells them. Whether digits stand behind a point, around it or in front of a
power of ten, what is read is the number nearest to the same digits at the same places. A whole number without a power of
ten shows no point and is read as a whole number.
-/

set_option autoImplicit false

namespace PlanFlow

namespace Json

def pointed (places : Text) : Text := if places.isEmpty then [] else ("." : Text) ++ places

def raised (power : Int) : Text := ("e" : Text) ++ (if power < 0 then ("-" : Text) else "+") ++ Decimal.ofNat power.natAbs

theorem read_fraction_pointed (places rest : Text) (each : ∀ c ∈ places, CodePoint.isDigit c = true) (stops : Stops rest)
    (plain : rest.head? ≠ some ('.' : CodePoint)) :
    readFraction (pointed places ++ rest) = (if places.isEmpty then none else some places, rest) := by
  cases places with
  | nil =>
      cases rest with
      | nil => rfl
      | cons c more =>
          have apart : c ≠ '.' := fun same => plain (congrArg some same)
          simp [pointed, readFraction, apart]
  | cons c more =>
      have span := span_digits_append (c :: more) rest each stops
      have given : pointed (c :: more) ++ rest = ('.' : CodePoint) :: (c :: more ++ rest) := rfl
      rw [given, readFraction, span]
      simp

theorem read_exponent_raised (power : Int) (rest : Text) (stops : Stops rest) :
    readExponent (raised power ++ rest) = (some power, rest) := by
  have span := span_digits_append (Decimal.ofNat power.natAbs) rest (Decimal.digit_of_mem _) stops
  have filled : (Decimal.ofNat power.natAbs).isEmpty = false := by simpa using Decimal.of_nat_ne_nil power.natAbs
  by_cases below : power < 0
  · have given : raised power ++ rest = ('e' : CodePoint) :: ('-' : CodePoint) :: (Decimal.ofNat power.natAbs ++ rest) := by
      rw [raised, if_pos below]
      rfl
    simp [given, readExponent, span, filled, Decimal.value_of_nat, abs_of_neg below]
  · have given : raised power ++ rest = ('e' : CodePoint) :: ('+' : CodePoint) :: (Decimal.ofNat power.natAbs ++ rest) := by
      rw [raised, if_neg below]
      rfl
    have unsigned : ¬ ('+' : CodePoint) = '-' := by decide
    simp [given, readExponent, unsigned, span, filled, Decimal.value_of_nat, abs_of_nonneg (Int.not_lt.mp below)]

theorem pointed_stops (places rest : Text) (stops : Stops rest) : Stops (pointed places ++ rest) := by
  cases places with
  | nil => exact stops
  | cons c more =>
      intro d head
      obtain rfl := Option.some.inj head
      decide

section

variable (t whole places rest : Text) (negative : Bool) (numeral : Numeral whole)
  (each : ∀ c ∈ places, CodePoint.isDigit c = true)

include numeral each

theorem read_unsigned_pointed (filled : places ≠ []) (ends : Ends rest) :
    readUnsigned t negative (whole ++ pointed places ++ rest) =
      .ok (.float (Binary64.ofDecimal negative (Decimal.value (whole ++ places)) (-places.length)), rest) := by
  have stops := ends_stops rest ends
  have plain : rest.head? ≠ some ('.' : CodePoint) := fun point => (ends _ point).2.1 rfl
  have read := read_whole_numeral whole _ numeral (pointed_stops places rest stops)
  have fraction := read_fraction_pointed places rest each stops plain
  have exponent := read_exponent_ends rest ends
  rw [List.append_assoc]
  simp [readUnsigned, read, fraction, exponent, filled]

theorem read_unsigned_raised (power : Int) (ends : Ends rest) :
    readUnsigned t negative (whole ++ pointed places ++ raised power ++ rest) =
      .ok (.float (Binary64.ofDecimal negative (Decimal.value (whole ++ places)) (power - places.length)), rest) := by
  have starts : raised power ++ rest = ('e' : CodePoint) :: (raised power ++ rest).tail := rfl
  have mark : Stops (raised power ++ rest) := by
    intro c head
    rw [starts] at head
    obtain rfl := Option.some.inj head
    decide
  have plain : (raised power ++ rest).head? ≠ some ('.' : CodePoint) := by
    rw [starts]
    exact fun same => absurd (Option.some.inj same) (by decide)
  have read := read_whole_numeral whole _ numeral (pointed_stops places _ mark)
  have fraction := read_fraction_pointed places _ each mark plain
  have exponent := read_exponent_raised power rest (ends_stops rest ends)
  rw [List.append_assoc, List.append_assoc]
  cases places with
  | nil => simp [readUnsigned, read, fraction, exponent]
  | cons c more => simp [readUnsigned, read, fraction, exponent]

end

inductive Denotes (digits : Nat) (exponent : Int) : Text → Prop where
  | pointed (whole places : Text) (numeral : Numeral whole) (each : ∀ c ∈ places, CodePoint.isDigit c = true)
      (filled : places ≠ []) (value : Decimal.value (whole ++ places) = digits) (down : -(places.length : Int) = exponent) :
      Denotes digits exponent (whole ++ Json.pointed places)
  | raised (whole places : Text) (power : Int) (numeral : Numeral whole) (each : ∀ c ∈ places, CodePoint.isDigit c = true)
      (value : Decimal.value (whole ++ places) = digits) (down : power - places.length = exponent) :
      Denotes digits exponent (whole ++ Json.pointed places ++ Json.raised power)

theorem numeral_head (whole behind : Text) (numeral : Numeral whole) :
    ∃ c, (whole ++ behind).head? = some c ∧ CodePoint.isDigit c = true := by
  obtain ⟨c, more, rfl⟩ := List.exists_cons_of_ne_nil numeral.nonempty
  exact ⟨c, rfl, numeral.each c List.mem_cons_self⟩

theorem denotes_spells (negative : Bool) (digits : Nat) (exponent : Int) (body : Text) (denotes : Denotes digits exponent body) :
    Spells ((if negative then ("-" : Text) else []) ++ body) (.float (Binary64.ofDecimal negative digits exponent)) := by
  cases denotes with
  | pointed whole places numeral each filled value down =>
      obtain ⟨c, starts, digit⟩ := numeral_head whole (pointed places) numeral
      refine spells_signed negative _ _ c starts digit fun t rest ends => ?_
      rw [read_unsigned_pointed t whole places rest negative numeral each filled ends, value, down]
  | raised whole places power numeral each value down =>
      obtain ⟨c, starts, digit⟩ := numeral_head whole (pointed places ++ raised power) numeral
      rw [← List.append_assoc] at starts
      refine spells_signed negative _ _ c starts digit fun t rest ends => ?_
      rw [read_unsigned_raised t whole places rest negative numeral each power ends, value, down]

end Json

namespace Binary64

open Json (Denotes)

section

variable (digits : Nat) (positive : 0 < digits) (exponent : Int)

theorem small_denotes (zeros : Nat) (gap : exponent + (Decimal.ofNat digits).length = -(zeros : Int)) :
    Denotes digits exponent (("0." : Text) ++ List.replicate zeros ('0' : CodePoint) ++ Decimal.ofNat digits) := by
  have filled : List.replicate zeros ('0' : CodePoint) ++ Decimal.ofNat digits ≠ [] :=
    List.append_ne_nil_of_right_ne_nil _ (Decimal.of_nat_ne_nil digits)
  have text : ("0." : Text) ++ List.replicate zeros ('0' : CodePoint) ++ Decimal.ofNat digits =
      ([('0' : CodePoint)] : Text) ++ Json.pointed (List.replicate zeros ('0' : CodePoint) ++ Decimal.ofNat digits) := by
    rw [Json.pointed, if_neg (by simpa using filled), List.append_assoc]
    rfl
  rw [text]
  refine .pointed _ _ (Json.numeral_of_nat 0) (fun c member => ?_) filled ?_ ?_
  · rcases List.mem_append.mp member with zero | digit
    · rw [(List.mem_replicate.mp zero).2]
      decide
    · exact Decimal.digit_of_mem digits c digit
  · exact (Decimal.value_zeros (zeros + 1) _).trans (Decimal.value_of_nat digits)
  · rw [List.length_append, List.length_replicate]
    omega

include positive

theorem numeral_take (count : Nat) (some_taken : 0 < count) : Json.Numeral ((Decimal.ofNat digits).take count) := by
  obtain ⟨c, more, given⟩ := List.exists_cons_of_ne_nil (Decimal.of_nat_ne_nil digits)
  have lead := Decimal.lead_of_positive digits positive
  obtain ⟨count, rfl⟩ : ∃ n, count = n + 1 := ⟨count - 1, by omega⟩
  refine ⟨by simp [given], fun d member => Decimal.digit_of_mem digits d (List.mem_of_mem_take member), fun zero => ?_⟩
  rw [given] at zero lead
  exact absurd zero lead

theorem positional_whole (layout : Layout) (unmarked : layout.wholeMark = []) (whole : 0 ≤ exponent) :
    positional layout (Decimal.ofNat digits) (exponent + (Decimal.ofNat digits).length - 1) =
      Decimal.ofNat (digits * 10 ^ exponent.toNat) := by
  have size := Decimal.length_pos digits
  have zeros : (exponent + (Decimal.ofNat digits).length - 1 + 1).toNat - (Decimal.ofNat digits).length = exponent.toNat := by omega
  unfold positional
  dsimp only
  rw [if_neg (by omega), if_pos (by omega), unmarked, List.append_nil, zeros, Decimal.of_nat_tens digits _ positive]

theorem split_denotes (front : Nat) (some_front : 0 < front) (point : exponent + (Decimal.ofNat digits).length = front)
    (fraction : exponent < 0) :
    Denotes digits exponent ((Decimal.ofNat digits).take front ++ ("." : Text) ++ (Decimal.ofNat digits).drop front) := by
  have filled : (Decimal.ofNat digits).drop front ≠ [] := by
    rw [ne_eq, List.drop_eq_nil_iff]
    omega
  have text : (Decimal.ofNat digits).take front ++ ("." : Text) ++ (Decimal.ofNat digits).drop front =
      (Decimal.ofNat digits).take front ++ Json.pointed ((Decimal.ofNat digits).drop front) := by
    rw [Json.pointed, if_neg (by simpa using filled), List.append_assoc]
  rw [text]
  refine .pointed _ _ (numeral_take digits positive front some_front)
    (fun c member => Decimal.digit_of_mem digits c (List.mem_of_mem_drop member)) filled ?_ ?_
  · rw [List.take_append_drop, Decimal.value_of_nat]
  · rw [List.length_drop]
    omega

theorem positional_denotes (layout : Layout) (fraction : exponent < 0) :
    Denotes digits exponent (positional layout (Decimal.ofNat digits) (exponent + (Decimal.ofNat digits).length - 1)) := by
  have size := Decimal.length_pos digits
  unfold positional
  dsimp only
  rw [sub_add_cancel]
  by_cases small : exponent + (Decimal.ofNat digits).length ≤ 0
  · obtain ⟨zeros, gap⟩ := Int.eq_ofNat_of_zero_le (Int.neg_nonneg.mpr small)
    rw [if_pos small, gap, Int.toNat_natCast]
    exact small_denotes digits exponent zeros (by omega)
  · obtain ⟨front, point⟩ := Int.eq_ofNat_of_zero_le (Int.not_le.mp small).le
    rw [if_neg small, if_neg (by omega), point, Int.toNat_natCast]
    exact split_denotes digits positive exponent front (by omega) point fraction

theorem scientific_denotes (layout : Layout) (narrow : layout.exponentWidth ≤ 1) :
    Denotes digits exponent (scientific layout (Decimal.ofNat digits) (exponent + (Decimal.ofNat digits).length - 1)) := by
  have size := Decimal.length_pos digits
  generalize power : exponent + (Decimal.ofNat digits).length - 1 = raise
  have unpadded : layout.exponentWidth - (Decimal.ofNat raise.natAbs).length = 0 := by
    have filled := Decimal.length_pos raise.natAbs
    omega
  have text : scientific layout (Decimal.ofNat digits) raise =
      (Decimal.ofNat digits).take 1 ++ Json.pointed ((Decimal.ofNat digits).drop 1) ++ Json.raised raise := by
    simp [scientific, unpadded, Json.pointed, Json.raised]
  rw [text]
  refine .raised _ _ raise (numeral_take digits positive 1 one_pos)
    (fun c member => Decimal.digit_of_mem digits c (List.mem_of_mem_drop member)) ?_ ?_
  · rw [List.take_append_drop, Decimal.value_of_nat]
  · rw [List.length_drop]
    omega

end

end Binary64

end PlanFlow
