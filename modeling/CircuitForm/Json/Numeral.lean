import CircuitForm.Word

/-!
# Numerals

A number is kept as it was spelled: sign, digits before the point, digits after it and
exponent, each of any length. Nothing is rounded, `-0` and `1.50` stay what they are, and every
numeral of this type has a spelling in the grammar of JSON, which allows no leading zero.
-/

namespace CircuitForm

abbrev Digit := Fin 10

namespace Digit

def ofByte? (b : UInt8) : Option Digit :=
  if h : 48 ≤ b.toNat ∧ b.toNat < 58 then some ⟨b.toNat - 48, by omega⟩ else none

def char (d : Digit) : Char :=
  Char.ofNat (48 + d.val)

end Digit

structure Digits where
  first : Digit
  more : List Digit
deriving DecidableEq, Repr

namespace Digits

def toList (ds : Digits) : List Digit :=
  ds.first :: ds.more

def value (ds : Digits) : Nat :=
  ds.toList.foldl (fun total d => total * 10 + d.val) 0

def chars (ds : Digits) : List Char :=
  ds.toList.map Digit.char

def push (ds : Digits) (d : Digit) : Digits :=
  ⟨ds.first, ds.more ++ [d]⟩

def ofNat (n : Nat) : Digits :=
  if h : n < 10 then ⟨⟨n, h⟩, []⟩
  else (ofNat (n / 10)).push ⟨n % 10, Nat.mod_lt n (by omega)⟩
termination_by n
decreasing_by omega

theorem value_push (ds : Digits) (d : Digit) : (ds.push d).value = ds.value * 10 + d.val := by
  simp [value, push, toList, List.foldl_append]

theorem value_ofNat (n : Nat) : (ofNat n).value = n := by
  induction n using Nat.strongRecOn with
  | ind n ih =>
    rw [ofNat]
    split
    · simp [value, toList]
    · rw [value_push, ih (n / 10) (by omega)]
      exact Nat.div_add_mod' n 10

theorem first_ofNat_ne_zero (n : Nat) (h : n ≠ 0) : (ofNat n).first.val ≠ 0 := by
  induction n using Nat.strongRecOn with
  | ind n ih =>
    rw [ofNat]
    split
    · intro equal
      exact h equal
    · exact ih (n / 10) (by omega) (by omega)

end Digits

/-- The digits before the point: a zero stands alone. -/
abbrev WholeDigits := { ds : Digits // ds.first.val = 0 → ds.more = [] }

def WholeDigits.ofNat (n : Nat) : WholeDigits :=
  ⟨Digits.ofNat n, fun h => by
    by_cases zero : n = 0
    · subst zero
      rw [Digits.ofNat]
      rfl
    · exact absurd h (Digits.first_ofNat_ne_zero n zero)⟩

structure Exponent where
  negative : Bool
  digits : Digits
deriving DecidableEq, Repr

structure Numeral where
  negative : Bool
  whole : WholeDigits
  fraction : Option Digits
  exponent : Option Exponent
deriving DecidableEq, Repr

namespace Numeral

def ofNat (n : Nat) : Numeral :=
  ⟨false, WholeDigits.ofNat n, none, none⟩

def ofInt (i : Int) : Numeral :=
  ⟨decide (i < 0), WholeDigits.ofNat i.natAbs, none, none⟩

def zero : Numeral :=
  ofNat 0

/-- The exponent is marked by `e` and always has a sign; all else is as it was read. -/
def chars (n : Numeral) : List Char :=
  (if n.negative then ['-'] else []) ++ n.whole.val.chars ++
    (match n.fraction with
      | none => []
      | some ds => '.' :: ds.chars) ++
    (match n.exponent with
      | none => []
      | some e => 'e' :: (if e.negative then '-' else '+') :: e.digits.chars)

def text (n : Numeral) : String :=
  String.ofList n.chars

def mantissa (n : Numeral) : List Digit :=
  n.whole.val.toList ++ (match n.fraction with
    | none => []
    | some ds => ds.toList)

/-- A number is below zero when it has the sign and a digit other than zero: `-0`, `-0.0` and
`-0e7` are not. -/
def isNegative (n : Numeral) : Bool :=
  n.negative && n.mantissa.any (·.val ≠ 0)

/-- The number as an integer, if it is spelled without point and exponent. -/
def int? (n : Numeral) : Option Int :=
  match n.fraction, n.exponent with
  | none, none => some (if n.negative then -(n.whole.val.value : Int) else n.whole.val.value)
  | _, _ => none

/-- The number as a natural number, if it is spelled without sign, point and exponent. -/
def natural? (n : Numeral) : Option Nat :=
  match n.negative, n.fraction, n.exponent with
  | false, none, none => some n.whole.val.value
  | _, _, _ => none

/-- The number as an integer of 64 bits, signed or unsigned. `-0` is not one. -/
def integer? (n : Numeral) : Option Int :=
  match n.int? with
  | none => none
  | some i =>
    if n.negative then
      if i ≠ 0 ∧ Word.fits64 i then some i else none
    else
      if i < Word.bound64 then some i else none

theorem natural?_ofNat (n : Nat) : (ofNat n).natural? = some n := by
  simp [ofNat, natural?, WholeDigits.ofNat, Digits.value_ofNat]

theorem int?_ofNat (n : Nat) : (ofNat n).int? = some (n : Int) := by
  simp [ofNat, int?, WholeDigits.ofNat, Digits.value_ofNat]

theorem integer?_ofNat (n : Nat) (h : n < Word.bound64) : (ofNat n).integer? = some (n : Int) := by
  have unsigned : ¬ (ofNat n).negative = true := Bool.false_ne_true
  simp only [integer?, int?_ofNat, if_neg unsigned]
  exact if_pos (Int.ofNat_lt.mpr h)

end Numeral

end CircuitForm
