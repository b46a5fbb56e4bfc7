import Mathlib.Algebra.Order.Field.Power
import Mathlib.Algebra.Order.Field.Rat
import CircuitForm.Proofs.Json.NumberText

/-!
# The rational number that a text stands for

Each spelling of a number has an exact value, whatever its length and its exponent. The sign of a
numeral is told from the digits alone; it is the sign of the value, in which the exponent plays no
part and every spelling of zero is zero.
-/

namespace CircuitForm

namespace Digits

theorem foldl_eq_zero_iff {ds : List Digit} {total : Nat} :
    ds.foldl (fun total d => total * 10 + d.val) total = 0 ↔ total = 0 ∧ ∀ d ∈ ds, d.val = 0 := by
  induction ds generalizing total with
  | nil => simp
  | cons d ds ih =>
    rw [List.foldl_cons, ih, List.forall_mem_cons, ← and_assoc]
    have hNext : total * 10 + d.val = 0 ↔ total = 0 ∧ d.val = 0 := by omega
    rw [hNext]

theorem value_eq_zero_iff {ds : Digits} : ds.value = 0 ↔ ∀ d ∈ ds.toList, d.val = 0 := by
  rw [value, foldl_eq_zero_iff, and_iff_right rfl]

end Digits

namespace ExponentText

def value (e : ExponentText) : ℤ :=
  if e.sign.isMinus then -e.digits.value else e.digits.value

theorem value_normal (e : ExponentText) : e.normal.value = e.value := by
  obtain ⟨capital, sign, digits⟩ := e
  cases sign <;> rfl

end ExponentText

namespace NumberText

/-- Digits behind the point, as a part of one. -/
def fractionValue : Option Digits → ℚ
  | none => 0
  | some ds => ds.value / 10 ^ ds.toList.length

def exponentValue : Option ExponentText → ℤ
  | none => 0
  | some e => e.value

/-- The value without the sign in front. -/
def magnitude (t : NumberText) : ℚ :=
  (t.whole.val.value + fractionValue t.fraction) * 10 ^ exponentValue t.exponent

def value (t : NumberText) : ℚ :=
  if t.negative then -t.magnitude else t.magnitude

theorem value_normal (t : NumberText) : t.normal.value = t.value := by
  have hExponent : exponentValue (t.exponent.map .normal) = exponentValue t.exponent := by
    cases t.exponent with
    | none => rfl
    | some e => exact e.value_normal
  rw [value, magnitude, normal, hExponent]
  rfl

theorem fractionValue_nonneg (fraction : Option Digits) : 0 ≤ fractionValue fraction := by
  cases fraction with
  | none => exact le_rfl
  | some ds => exact div_nonneg ds.value.cast_nonneg (pow_nonneg (by decide) _)

theorem fractionValue_eq_zero_iff {fraction : Option Digits} :
    fractionValue fraction = 0 ↔ ∀ ds ∈ fraction, ∀ d ∈ ds.toList, d.val = 0 := by
  cases fraction with
  | none => simp [fractionValue]
  | some ds =>
    have hScale : (10 : ℚ) ^ ds.toList.length ≠ 0 := pow_ne_zero _ (by decide)
    rw [fractionValue, div_eq_zero_iff, or_iff_left hScale, Nat.cast_eq_zero, Digits.value_eq_zero_iff]
    simp

theorem magnitude_nonneg (t : NumberText) : 0 ≤ t.magnitude :=
  mul_nonneg (add_nonneg t.whole.val.value.cast_nonneg (fractionValue_nonneg t.fraction))
    (zpow_nonneg (by decide) _)

/-- No exponent makes a zero of another number. -/
theorem magnitude_eq_zero_iff {t : NumberText} :
    t.magnitude = 0 ↔ ∀ d ∈ t.numeral.mantissa, d.val = 0 := by
  have hScale : (10 : ℚ) ^ exponentValue t.exponent ≠ 0 := zpow_ne_zero _ (by decide)
  have hWhole : (0 : ℚ) ≤ t.whole.val.value := t.whole.val.value.cast_nonneg
  have hParts := add_eq_zero_iff_of_nonneg hWhole (fractionValue_nonneg t.fraction)
  rw [magnitude, mul_eq_zero, or_iff_left hScale, hParts, Nat.cast_eq_zero, Digits.value_eq_zero_iff,
    fractionValue_eq_zero_iff, Numeral.mantissa, List.forall_mem_append]
  cases hFraction : t.fraction <;> simp [numeral, hFraction]

theorem isNegative_iff_value_neg {t : NumberText} : t.numeral.isNegative = true ↔ t.value < 0 := by
  have hDigits : t.numeral.mantissa.any (·.val ≠ 0) = true ↔ t.magnitude ≠ 0 := by
    rw [Ne, magnitude_eq_zero_iff]
    simp
  rw [Numeral.isNegative, Bool.and_eq_true, hDigits, value]
  change t.negative = true ∧ t.magnitude ≠ 0 ↔ _
  split
  · rename_i hNegative
    rw [neg_lt_zero, lt_iff_le_and_ne, ne_comm, and_iff_right t.magnitude_nonneg, and_iff_right hNegative]
  · rename_i hPositive
    exact iff_of_false (fun h => hPositive h.1) t.magnitude_nonneg.not_gt

end NumberText

end CircuitForm
