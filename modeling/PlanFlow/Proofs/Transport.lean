import PlanFlow.Proofs.Admission
import PlanFlow.Proofs.Representable
import PlanFlow.Proofs.Shortest
import PlanFlow.Proofs.Spelling

/-!
Canonical text as a way to send a specification. A floating-point number whose text shows no point arrives as a whole
number, which is written alike as long as it is a safe one. From two to the power 53 up to `1e+21` it is not: such a number
is written, and what it arrives as is refused.
-/

set_option autoImplicit false

namespace PlanFlow

open Json (Passage signed)

theorem Json.write_signed (negative : Bool) (n : Nat) (filled : 0 < n) (safe : (n : Int) ≤ Canonical.safeLimit) :
    Canonical.write (.int (signed negative n)) = .ok ((if negative then ("-" : Text) else []) ++ Decimal.ofNat n) := by
  have bounded : (-Canonical.safeLimit ≤ signed negative n && signed negative n ≤ Canonical.safeLimit) = true := by
    rw [Bool.and_eq_true, decide_eq_true_eq, decide_eq_true_eq, signed]
    simp only [Canonical.safeLimit] at safe ⊢
    split_ifs <;> omega
  rw [Canonical.write, Canonical.ofInt, if_pos bounded]
  cases negative with
  | false => rfl
  | true =>
      obtain ⟨m, rfl⟩ : ∃ m, n = m + 1 := ⟨n - 1, by omega⟩
      rfl

namespace Binary64

def firstPower : Nat := 10 ^ 21

-- The value is not whole, or a safe number, or shown with a power of ten.
structure Portable (x : Binary64) : Prop where
  finite : x.isFinite = true
  whole : ∀ n, x.toInt? = some n → (n.natAbs : Int) ≤ Json.Canonical.safeLimit ∨ firstPower ≤ n.natAbs

def ShownWhole (x : Binary64) : Prop :=
  0 ≤ x.shortest.exponent ∧ x.shortest.exponent + (Decimal.ofNat x.shortest.digits).length - 1 < 21

instance (x : Binary64) : Decidable x.ShownWhole := inferInstanceAs (Decidable (_ ∧ _))

def shownValue (x : Binary64) : Nat := x.shortest.digits * 10 ^ x.shortest.exponent.toNat

def arrival (x : Binary64) : Json :=
  if x.isZero then .int 0
  else if x.ShownWhole then .int (signed x.negative x.shownValue)
  else .float x

theorem render_zero (x : Binary64) (zero : x.isZero = true) : render Json.Canonical.layout x = "0" := by
  rw [render, if_pos zero]
  simp [Json.Canonical.layout]

section

variable (x : Binary64) (nonzero : x.isZero = false)

include nonzero

theorem shortest_filled : 0 < x.shortest.digits := by
  have positive := x.shortest_positive nonzero
  refine Nat.pos_of_ne_zero fun empty => ?_
  rw [Numeral.value, empty, Nat.cast_zero, zero_mul] at positive
  exact lt_irrefl 0 positive

theorem render_signed : render Json.Canonical.layout x = (if x.negative then ("-" : Text) else []) ++
    if -6 ≤ x.shortest.exponent + (Decimal.ofNat x.shortest.digits).length - 1 &&
        x.shortest.exponent + (Decimal.ofNat x.shortest.digits).length - 1 < 21 then
      positional Json.Canonical.layout (Decimal.ofNat x.shortest.digits)
        (x.shortest.exponent + (Decimal.ofNat x.shortest.digits).length - 1)
    else scientific Json.Canonical.layout (Decimal.ofNat x.shortest.digits)
      (x.shortest.exponent + (Decimal.ofNat x.shortest.digits).length - 1) := by
  rw [render, if_neg (by simp [nonzero])]
  rfl

theorem render_whole (whole : x.ShownWhole) :
    render Json.Canonical.layout x = (if x.negative then ("-" : Text) else []) ++ Decimal.ofNat x.shownValue := by
  have size : 0 < (Decimal.ofNat x.shortest.digits).length := Decimal.length_pos _
  obtain ⟨least, bound⟩ := whole
  rw [render_signed x nonzero]
  congr 1
  split_ifs with placed
  · exact positional_whole _ (x.shortest_filled nonzero) _ _ rfl least
  · simp only [Bool.and_eq_true, decide_eq_true_eq] at placed
    omega

theorem render_denotes (fraction : ¬ x.ShownWhole) : ∃ body,
    render Json.Canonical.layout x = (if x.negative then ("-" : Text) else []) ++ body ∧
      Json.Denotes x.shortest.digits x.shortest.exponent body := by
  have filled := x.shortest_filled nonzero
  refine ⟨_, render_signed x nonzero, ?_⟩
  split_ifs with placed
  · refine positional_denotes _ filled _ _ (Int.not_le.mp fun least => fraction ⟨least, ?_⟩)
    simp only [Bool.and_eq_true, decide_eq_true_eq] at placed
    exact placed.2
  · exact scientific_denotes _ filled _ _ (le_refl 1)

theorem shown_value (whole : x.ShownWhole) : x.shortest.value = x.shownValue ∧ x.shownValue < firstPower := by
  obtain ⟨least, bound⟩ := whole
  have value : x.shortest.value = x.shownValue := by
    obtain ⟨n, exponent⟩ := Int.eq_ofNat_of_zero_le least
    rw [Numeral.value, shownValue, exponent, Int.toNat_natCast, zpow_natCast]
    push_cast
    rfl
  refine ⟨value, ?_⟩
  have size := (Numeral.value_size x.shortest (Nat.ne_of_gt (x.shortest_filled nonzero))).2
  have places : (10 : ℚ) ^ ((Nat.toDigits 10 x.shortest.digits).length + x.shortest.exponent) ≤ 10 ^ ((21 : Nat) : Int) := by
    rw [Decimal.ofNat, List.length_map] at bound
    exact zpow_le_zpow_right₀ (by norm_num) (by push_cast; omega)
  have less := lt_of_lt_of_le size places
  rw [value, zpow_natCast] at less
  exact_mod_cast less

end

theorem to_int_scaled (x : Binary64) (finite : x.isFinite = true) (whole : 0 ≤ x.scale) :
    ∃ n, x.toInt? = some n ∧ n.natAbs = x.significand * 2 ^ x.scale.toNat := by
  refine ⟨if x.negative then -((x.significand * 2 ^ x.scale.toNat : Nat) : Int) else (x.significand * 2 ^ x.scale.toNat : Nat),
    ?_, ?_⟩
  · simp [toInt?, finite, whole]
  · split_ifs
    · rw [Int.natAbs_neg, Int.natAbs_natCast]
    · rw [Int.natAbs_natCast]

theorem to_int_small (x : Binary64) (n : Int) (given : x.toInt? = some n) (low : x.scale ≤ 0) : n.natAbs < 2 ^ 53 := by
  have bound := x.significand_lt
  have size : n.natAbs ≤ x.significand := by
    cases finite : x.isFinite with
    | false => simp [toInt?, finite] at given
    | true =>
        by_cases whole : 0 ≤ x.scale
        · obtain ⟨m, own, size⟩ := x.to_int_scaled finite whole
          obtain rfl := Option.some.inj (given.symm.trans own)
          rw [size, le_antisymm low whole, Int.toNat_zero, pow_zero, Nat.mul_one]
        · obtain ⟨m, part, rfl⟩ : ∃ m, m ≤ x.significand ∧ n = if x.negative then -(m : Int) else m := by
            by_cases even : x.significand % 2 ^ (-x.scale).toNat = 0
            · refine ⟨x.significand / 2 ^ (-x.scale).toNat, Nat.div_le_self _ _, Eq.symm ?_⟩
              simpa [toInt?, finite, whole, even] using given
            · simp [toInt?, finite, whole, even] at given
          split_ifs
          · rwa [Int.natAbs_neg, Int.natAbs_natCast]
          · rwa [Int.natAbs_natCast]
  exact lt_of_le_of_lt size bound

theorem beyond_scaled (x : Binary64) (finite : x.isFinite = true) (n : Int) (given : x.toInt? = some n)
    (beyond : Json.Canonical.safeLimit < n.natAbs) :
    1076 ≤ x.exponent.val ∧ 0 ≤ x.scale ∧ n.natAbs = x.significand * 2 ^ x.scale.toNat := by
  have large : 0 < x.scale := by
    by_contra low
    have small := x.to_int_small n given (Int.not_lt.mp low)
    simp only [Json.Canonical.safeLimit] at beyond
    omega
  obtain ⟨m, own, size⟩ := x.to_int_scaled finite large.le
  obtain rfl := Option.some.inj (given.symm.trans own)
  refine ⟨?_, large.le, size⟩
  unfold scale at large
  omega

theorem scaled_large (x : Binary64) (high : 1076 ≤ x.exponent.val) :
    0 ≤ x.scale ∧ 2 ^ 53 ≤ x.significand * 2 ^ x.scale.toNat := by
  have scale : 1 ≤ x.scale := by
    unfold scale
    omega
  have power : 2 ^ 1 ≤ 2 ^ x.scale.toNat := Nat.pow_le_pow_right (by decide) (by omega)
  refine ⟨by omega, ?_⟩
  rw [x.significand_normal (by omega)]
  calc 2 ^ 53 = fractionCount * 2 ^ 1 := rfl
    _ ≤ (fractionCount + x.fraction.val) * 2 ^ x.scale.toNat := Nat.mul_le_mul (Nat.le_add_right _ _) power

-- A portable number that is shown as a whole one is a safe one: from two to the power 53 upwards it would reach the first
-- power of ten that is shown as one, and so would its digits.
theorem shown_safe (x : Binary64) (portable : x.Portable) (nonzero : x.isZero = false) (whole : x.ShownWhole) :
    (x.shownValue : Int) ≤ Json.Canonical.safeLimit := by
  obtain ⟨value, less⟩ := x.shown_value nonzero whole
  by_contra beyond
  have high : 1076 ≤ x.exponent.val := by
    by_contra low
    have small := x.held_small (by omega) _ (x.shortest_holds nonzero)
    rw [value] at small
    have bound : x.shownValue < 2 ^ 53 := by exact_mod_cast small
    exact beyond (by simp only [Json.Canonical.safeLimit]; omega)
  obtain ⟨scale, large⟩ := x.scaled_large high
  obtain ⟨n, given, size⟩ := x.to_int_scaled portable.finite scale
  have huge : firstPower ≤ n.natAbs := by
    refine (portable.whole n given).resolve_left fun safe => ?_
    simp only [Json.Canonical.safeLimit] at safe
    omega
  have reached : 10 ^ 21 * (Interval.around x).unit ≤ (Interval.around x).middle := by
    rw [x.middle_whole scale, ← size]
    exact Nat.mul_le_mul_right _ huge
  have least := x.shortest_reaches nonzero 21 reached
  rw [value] at least
  have cast : 10 ^ 21 ≤ x.shownValue := by exact_mod_cast least
  exact absurd less (Nat.not_lt.mpr cast)

theorem first_power_aligned (x : Binary64) (high : 1076 ≤ x.exponent.val)
    (less : x.significand * 2 ^ x.scale.toNat < firstPower) : 2 ^ x.scale.toNat ∣ firstPower := by
  have short : x.scale.toNat ≤ 21 := by
    by_contra long
    have whole := x.significand_normal (by omega)
    have power : 2 ^ 22 ≤ 2 ^ x.scale.toNat := Nat.pow_le_pow_right (by decide) (by omega)
    have product : fractionCount * 2 ^ 22 ≤ x.significand * 2 ^ x.scale.toNat := Nat.mul_le_mul (by omega) power
    have enough : firstPower ≤ fractionCount * 2 ^ 22 := by decide
    omega
  exact (pow_dvd_pow 2 short).trans ⟨5 ^ 21, by decide⟩

theorem shown_of_less (x : Binary64) (nonzero : x.isZero = false) (least : 0 ≤ x.shortest.exponent)
    (less : x.shortest.value < firstPower) : x.ShownWhole := by
  refine ⟨least, ?_⟩
  by_contra long
  have places := (Numeral.value_size x.shortest (Nat.ne_of_gt (x.shortest_filled nonzero))).1
  have reached : (10 : ℚ) ^ ((21 : Nat) : Int) ≤ 10 ^ ((Nat.toDigits 10 x.shortest.digits).length + x.shortest.exponent - 1) := by
    rw [Decimal.ofNat, List.length_map] at long
    exact zpow_le_zpow_right₀ (by norm_num) (by push_cast; omega)
  have huge := reached.trans places
  rw [zpow_natCast] at huge
  have cast : ((firstPower : Nat) : ℚ) = 10 ^ 21 := by norm_num [firstPower]
  rw [cast] at less
  exact absurd less (not_lt.mpr huge)

theorem unsafe_shown (x : Binary64) (finite : x.isFinite = true) (n : Int) (given : x.toInt? = some n)
    (beyond : Json.Canonical.safeLimit < n.natAbs) (less : n.natAbs < firstPower) :
    x.isZero = false ∧ x.ShownWhole ∧ Json.Canonical.safeLimit < x.shownValue := by
  obtain ⟨high, whole, size⟩ := x.beyond_scaled finite n given beyond
  have nonzero : x.isZero = false := by
    have apart : x.exponent ≠ noExponent := fun same => by simp [same, noExponent] at high
    simp [isZero, apart]
  have held := x.shortest_holds nonzero
  rw [size] at less
  have above := x.held_below whole firstPower (x.first_power_aligned high less) less _ held
  have shown := x.shown_of_less nonzero (x.shortest_whole nonzero whole) above
  have low := x.held_large high _ held
  rw [(x.shown_value nonzero shown).1] at low
  have bound : 2 ^ 53 < x.shownValue + 1 := by
    have sum : (2 : ℚ) ^ 53 < x.shownValue + 1 := by linarith
    exact_mod_cast sum
  refine ⟨nonzero, shown, ?_⟩
  simp only [Json.Canonical.safeLimit]
  omega

theorem arrival_simple (x : Binary64) : x.arrival = .float x ∨ ∃ n, x.arrival = .int n := by
  unfold arrival
  split_ifs
  · exact .inr ⟨_, rfl⟩
  · exact .inr ⟨_, rfl⟩
  · exact .inl rfl

structure Settled (x : Binary64) : Prop where
  finite : x.isFinite = true
  same : x.arrival = .float x

theorem arrival_spelled (x : Binary64) (finite : x.isFinite = true) :
    Json.Spells (render Json.Canonical.layout x) x.arrival := by
  unfold arrival
  split_ifs with zero whole
  · rw [x.render_zero zero]
    exact Json.spells_whole false 0 (by decide)
  · have nonzero : x.isZero = false := by simpa using zero
    have short : ¬ (Decimal.ofNat x.shownValue).length > Decimal.digitLimit := by
      have few := (Decimal.length_le_iff x.shownValue 21 (by decide)).mpr (x.shown_value nonzero whole).2
      simp only [Decimal.digitLimit]
      omega
    rw [x.render_whole nonzero whole]
    exact Json.spells_whole x.negative x.shownValue short
  · have nonzero : x.isZero = false := by simpa using zero
    obtain ⟨body, text, denotes⟩ := x.render_denotes nonzero whole
    have spelled := Json.denotes_spells x.negative _ _ body denotes
    rwa [x.shortest_reads nonzero finite, ← text] at spelled

theorem arrival_written (x : Binary64) (portable : x.Portable) :
    Json.Canonical.write x.arrival = Json.Canonical.write (.float x) := by
  have written : Json.Canonical.write (.float x) = .ok (render Json.Canonical.layout x) := by
    rw [Json.Canonical.write, Json.Canonical.ofFloat, if_pos portable.finite]
  unfold arrival
  split_ifs with zero whole
  · rw [written, x.render_zero zero]
    rfl
  · have nonzero : x.isZero = false := by simpa using zero
    have safe := x.shown_safe portable nonzero whole
    have filled := x.shortest_filled nonzero
    have shown : 0 < x.shownValue := Nat.mul_pos filled (Nat.pow_pos (by decide))
    rw [written, x.render_whole nonzero whole, Json.write_signed x.negative x.shownValue shown safe]
  · rfl

theorem portable_of_writable (x : Binary64) (finite : x.isFinite = true) (writable : Json.Canonical.Writable x.arrival) :
    x.Portable := by
  refine ⟨finite, fun n given => ?_⟩
  by_contra neither
  obtain ⟨beyond, less⟩ := not_or.mp neither
  obtain ⟨nonzero, shown, large⟩ := x.unsafe_shown finite n given (Int.not_le.mp beyond) (Nat.not_le.mp less)
  rw [arrival, if_neg (by simp [nonzero]), if_pos shown, Json.Canonical.Writable] at writable
  have low := writable.1
  have high := writable.2
  unfold signed at low high
  split_ifs at low high <;> omega

end Binary64

def Json.Passage.text : Passage :=
  .sorted Binary64.arrival (fun x => x.isFinite = true) Binary64.arrival_simple Passage.direct.finite

theorem Json.text_through : Passage.text.ThroughText := ⟨fun _ => rfl, Binary64.arrival_spelled⟩

theorem Json.portable_of_writable (value : Json) (regular : value.Regular fun x => x.isFinite = true)
    (writable : Canonical.Writable (value.recast .text)) : value.Regular Binary64.Portable := by
  induction value using by_parts with
  | float x => exact x.portable_of_writable regular writable
  | arr items ih =>
      have each := (regular_items_iff _ items).mp regular
      rw [recast_arr, Canonical.Writable, Canonical.writable_items_iff] at writable
      exact (regular_items_iff _ items).mpr fun item member =>
        ih item member (each item member) (writable _ (List.mem_map_of_mem member))
  | obj fields ih =>
      have each := (regular_fields_iff _ fields).mp regular.2
      rw [recast_obj, Canonical.Writable, Canonical.writable_fields_iff] at writable
      refine ⟨regular.1, (regular_fields_iff _ fields).mpr fun entry member => ih entry member (each entry member) ?_⟩
      exact (writable _ ((Passage.text.mem_arrange _ _).mpr (List.mem_map_of_mem member))).2
  | _ => trivial

namespace Spec

theorem received_valid (w : Passage) (s : Spec) (valid : s.Valid w.carries) (numbers : Binary64 → Prop)
    (regular : (s.toPayload.recast w).Regular numbers) : (s.received w).Valid numbers :=
  spec_admitted _ regular _ (s.payload_reads w valid).valid

theorem payload_regular (s : Spec) (numbers : Binary64 → Prop) (finite : ∀ x, numbers x → x.isFinite = true)
    (valid : s.Valid numbers) : s.toPayload.Regular numbers :=
  (s.payload_reads (.sorted .float numbers Passage.float_simple finite) valid).regular

theorem presented_orderly (s : Spec) (numbers : Binary64 → Prop) (valid : s.Valid numbers) (form : Json)
    (presented : s.payload = .ok form) : s.toPayload.Orderly := by
  obtain ⟨clear, _⟩ := (Outcome.written_eq_ok _ _ _).mp presented
  exact s.payload_orderly ⟨(Freeform.first_obstacle_eq_none _).mp clear, spec_names_clean numbers s valid⟩

end Spec

namespace Spec

theorem received_written (s : Spec) (valid : s.Valid fun x => x.isFinite = true) (form : Json)
    (presented : s.payload = .ok form) :
    (s.received .text).payload = .ok (s.received .text).toPayload ∧
      Json.Canonical.write (s.received .text).toPayload = Json.Canonical.write (s.toPayload.recast .text) := by
  have sent := (s.payload_reads .text valid).regular
  obtain ⟨again, alike⟩ := received_payload .text s valid form presented
  obtain ⟨_, rfl⟩ := (Outcome.written_eq_ok _ _ _).mp presented
  have settled (x : Binary64) (finite : x.isFinite = true) : x.arrival.Regular Binary64.Settled := by
    rcases x.arrival_simple with same | ⟨n, whole⟩
    · rw [same]
      exact ⟨finite, same⟩
    · rw [whole]
      trivial
  have received := s.received_valid .text valid _ (Json.regular_moved .text _ Binary64.Settled settled _ sent)
  have arrived := (s.received .text).payload_regular _ (fun x held => held.finite) received
  have orderly := (s.received .text).presented_orderly _ received _ again
  have same := write_recast .text Json.text_through Binary64.Settled (fun x held => congrArg _ held.same) _ arrived orderly
  exact ⟨again, same.symm.trans (congrArg Json.Canonical.write alike)⟩

end Spec

namespace Sample

def fractional : Binary64 := Binary64.ofDecimal false 15 (-1)

def powered : Binary64 := Binary64.ofDecimal false 1 21

def crowded : Binary64 := ⟨false, ⟨1076, by decide⟩, Binary64.noFraction⟩

theorem portable_fractional : fractional.Portable := by
  have part : fractional.isFinite = true ∧ fractional.toInt? = none := by decide +kernel
  refine ⟨part.1, fun n given => ?_⟩
  rw [part.2] at given
  cases given

theorem portable_powered : powered.Portable := by
  have whole : powered.isFinite = true ∧ powered.toInt? = some (10 ^ 21) := by decide +kernel
  refine ⟨whole.1, fun n given => .inr ?_⟩
  rw [whole.2] at given
  obtain rfl := Option.some.inj given
  decide

theorem crowded_arrival : crowded.arrival = .int 9007199254740992 := by
  have shown : crowded.isZero = false ∧ crowded.ShownWhole ∧ crowded.shownValue = 9007199254740992 := by decide +kernel
  obtain ⟨nonzero, whole, value⟩ := shown
  rw [Binary64.arrival, if_neg (by simp [nonzero]), if_pos whole, value]
  rfl

example : Binary64.render Json.Canonical.layout crowded = "9007199254740992" := by decide +kernel

theorem crowded_received : (chosen (.float crowded)).received .text = chosen (.int 9007199254740992) := by
  rw [← crowded_arrival]
  rfl

theorem text_of_ok (s : Spec) (ok : s.canonicalText.isOk = true) : ∃ t, s.canonicalText = .ok t :=
  exists_ok s.canonicalText ok

end Sample

theorem canonical_survives (s : Spec) (t : Text) (valid : s.Valid fun x => x.isFinite = true)
    (written : s.canonicalText = .ok t) :
    ∃ received, Spec.read (.text t) = .ok received ∧
      (s.toPayload.Regular Binary64.Portable → received.canonicalText = .ok t ∧ received.digest = s.digest) ∧
      (¬ s.toPayload.Regular Binary64.Portable →
        (∀ other, received.canonicalText ≠ .ok other) ∧ ∀ digest, received.digest ≠ .ok digest) := by
  have reads := s.payload_reads .text valid
  obtain ⟨form, presented, canonical⟩ := (bind_eq_ok _ _ _).mp written
  obtain ⟨again, same⟩ := s.received_written valid form presented
  have orderly := s.presented_orderly _ valid form presented
  obtain ⟨_, rfl⟩ := (Outcome.written_eq_ok _ _ _).mp presented
  refine ⟨s.received .text, s.text_reads .text Json.text_through _ reads t written, fun portable => ?_, fun stuck => ?_⟩
  · have shown := write_recast .text Json.text_through Binary64.Portable Binary64.arrival_written _ portable orderly
    have text : (s.received .text).canonicalText = .ok t := by
      rw [Spec.canonicalText, again, ok_bind, same.trans shown]
      exact canonical
    exact ⟨text, by rw [Spec.digest, Spec.digest, text, written]⟩
  · have refused (other : Text) : (s.received .text).canonicalText ≠ .ok other := by
      intro text
      obtain ⟨_, arrived⟩ := ((s.received .text).canonical_text_eq_ok other).mp text
      rw [same] at arrived
      exact stuck (s.toPayload.portable_of_writable reads.regular ((Json.Canonical.write_ok _).mp ⟨other, arrived⟩))
    refine ⟨refused, fun digest hashed => ?_⟩
    obtain ⟨other, text, _⟩ := (map_eq_ok _ _ _).mp hashed
    exact refused other text

theorem sample_survives : ∃ t received,
    (Sample.chosen (.arr [.float Sample.fractional, .float Sample.powered])).canonicalText = .ok t ∧
    Spec.read (.text t) = .ok received ∧ received.canonicalText = .ok t := by
  have regular : (Json.arr [.float Sample.fractional, .float Sample.powered]).Regular Binary64.Portable :=
    ⟨Sample.portable_fractional, Sample.portable_powered, trivial⟩
  have finite : (Json.arr [.float Sample.fractional, .float Sample.powered]).Regular fun x => x.isFinite = true :=
    ⟨Sample.portable_fractional.finite, Sample.portable_powered.finite, trivial⟩
  obtain ⟨t, written⟩ := Sample.text_of_ok (Sample.chosen (.arr [.float Sample.fractional, .float Sample.powered]))
    (by decide +kernel)
  obtain ⟨received, read, survives, _⟩ := canonical_survives _ t (Sample.chosen_valid _ _ finite) written
  have portable := Spec.payload_regular _ _ (fun x held => held.finite) (Sample.chosen_valid _ _ regular)
  exact ⟨t, received, written, read, (survives portable).1⟩

theorem sample_crowded_lost : (Sample.chosen (.float Sample.crowded)).Valid (fun x => x.isFinite = true) ∧
    ∃ t, (Sample.chosen (.float Sample.crowded)).canonicalText = .ok t ∧
      Spec.read (.text t) = .ok (Sample.chosen (.int 9007199254740992)) ∧
      (∀ other, (Sample.chosen (.int 9007199254740992)).canonicalText ≠ .ok other) ∧
      ∀ digest, (Sample.chosen (.int 9007199254740992)).digest ≠ .ok digest := by
  have finite : Sample.crowded.isFinite = true := by decide
  have valid : (Sample.chosen (.float Sample.crowded)).Valid fun x => x.isFinite = true := Sample.chosen_valid _ _ finite
  have refused : ∀ other, (Sample.chosen (.int 9007199254740992)).canonicalText ≠ .ok other := nofun
  obtain ⟨t, written⟩ := Sample.text_of_ok (Sample.chosen (.float Sample.crowded)) (by decide +kernel)
  have read := Spec.text_reads .text Json.text_through _ _ (Spec.payload_reads .text _ valid) t written
  rw [Sample.crowded_received] at read
  refine ⟨valid, t, written, read, refused, fun digest hashed => ?_⟩
  obtain ⟨other, text, _⟩ := (map_eq_ok _ _ _).mp hashed
  exact refused other text

end PlanFlow
