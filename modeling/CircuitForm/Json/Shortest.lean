import CircuitForm.Json.Numeral

/-!
# Numerals and floating-point numbers

A double is written with the fewest digits that read back as it, and with the nearest such digits
to its exact value. It is decoded into an integer times a power of two, so all of this is done
in exact arithmetic. From `10 ^ 16` on and below `10 ^ -4` the exponent is written.
-/

namespace CircuitForm

/-- A positive number `significand * 2 ^ exponent` with the gap to its lower neighbour halved where
the exponents meet. -/
structure BinaryFloat where
  significand : Nat
  exponent : Int
  lowerGapHalved : Bool

namespace BinaryFloat

/-- The power `2 ^ 52`: a double has 52 bits after the first one of its significand. -/
def fractionSize : Nat := 4503599627370496

def ofBits? (bits : UInt64) : Option BinaryFloat :=
  let fraction : Nat := bits.toNat % fractionSize
  let biased : Nat := bits.toNat / fractionSize % 2048
  if biased = 0 then
    if fraction = 0 then none else some ⟨fraction, -1074, false⟩
  else
    some ⟨fractionSize + fraction, (biased : Int) - 1075, fraction = 0 ∧ 1 < biased⟩

/-- The number times four, and the ends of the interval of reals that round to it times four, all
over one denominator. -/
structure Interval where
  low : Nat
  value : Nat
  high : Nat
  denominator : Nat
  closed : Bool

def interval (x : BinaryFloat) : Interval :=
  let scale := Nat.pow 2 x.exponent.toNat
  let m := x.significand
  { low := (4 * m - (if x.lowerGapHalved then 1 else 2)) * scale
    value := 4 * m * scale
    high := (4 * m + 2) * scale
    denominator := 4 * Nat.pow 2 (-x.exponent).toNat
    closed := m % 2 = 0 }

def Interval.contains (i : Interval) (digits : Nat) (power : Int) : Bool :=
  let point := digits * Nat.pow 10 power.toNat * i.denominator
  let scale := Nat.pow 10 (-power).toNat
  let low := i.low * scale
  let high := i.high * scale
  if i.closed then low ≤ point && point ≤ high else low < point && point < high

def decimalLength (n : Nat) : Nat :=
  (Digits.ofNat n).toList.length

def Interval.magnitude (i : Interval) : Int :=
  (decimalLength (i.value * Nat.pow 10 400 / i.denominator) : Int) - 401

/-- The point of a decimal grid in the interval, the one nearer to the value if there are two. -/
def Interval.onGrid? (i : Interval) (power : Int) : Option Nat :=
  let numerator := i.value * Nat.pow 10 (-power).toNat
  let denominator := i.denominator * Nat.pow 10 power.toNat
  let below := numerator / denominator
  let remainder := numerator % denominator
  let lowFits := i.contains below power
  let highFits := i.contains (below + 1) power
  if lowFits && highFits then
    some (if 2 * remainder < denominator ∨ (2 * remainder = denominator ∧ below % 2 = 0) then below
      else below + 1)
  else if lowFits then some below
  else if highFits then some (below + 1)
  else none

/-- The fewest digits in the interval, trying one count after the other. Seventeen always do. -/
def Interval.shortest (i : Interval) : (fuel count : Nat) → Nat × Int
  | 0, count => (0, i.magnitude - count + 1)
  | fuel + 1, count =>
    let power := i.magnitude - count + 1
    match i.onGrid? power with
    | some digits => (digits, power)
    | none => shortest i fuel (count + 1)

end BinaryFloat

namespace Digits

def ofList? : List Digit → Option Digits
  | [] => none
  | first :: more => some ⟨first, more⟩

end Digits

namespace Numeral

/-- The numeral of a decimal number in positional notation, with at least one digit after the
point. -/
def positional (negative : Bool) (digits : Nat) (power : Int) : Numeral :=
  let scaled := digits * Nat.pow 10 power.toNat
  let places := (-power).toNat
  let fractionDigits := (Digits.ofNat (scaled % Nat.pow 10 places)).toList
  let zero := Digits.ofNat 0
  let padded := List.replicate (places - fractionDigits.length) zero.first ++ fractionDigits
  let fraction := if places = 0 then zero else (Digits.ofList? padded).getD zero
  ⟨negative, WholeDigits.ofNat (scaled / Nat.pow 10 places), some fraction, none⟩

/-- The numeral of a decimal number with one digit before the point and an exponent. -/
def scientific (negative : Bool) (digits : Nat) (power : Int) : Numeral :=
  let all := Digits.ofNat digits
  let exponent := power + all.more.length
  let lead : WholeDigits := ⟨⟨all.first, []⟩, fun _ => rfl⟩
  ⟨negative, lead, Digits.ofList? all.more,
    some ⟨decide (exponent < 0), Digits.ofNat exponent.natAbs⟩⟩

def trimZeros : (fuel : Nat) → (digits : Nat) → (power : Int) → Nat × Int
  | 0, digits, power => (digits, power)
  | fuel + 1, digits, power =>
    if digits % 10 = 0 ∧ digits ≠ 0 then trimZeros fuel (digits / 10) (power + 1)
    else (digits, power)

def ofFloat? (x : Float) : Option Numeral :=
  if x.isFinite then
    let negative := x.toBits.toNat ≥ 9223372036854775808
    match BinaryFloat.ofBits? x.toBits with
    | none => some (positional negative 0 0)
    | some b =>
      let interval := b.interval
      let (digits, power) := interval.shortest 17 1
      let (digits, power) := trimZeros 17 digits power
      let magnitude := interval.magnitude
      some (if 16 ≤ magnitude ∨ magnitude < -4 then scientific negative digits power
        else positional negative digits power)
  else
    none

def digitsValue (digits : List Digit) : Nat :=
  digits.foldl (fun total d => total * 10 + d.val) 0

/-- The double nearest to a numeral. Powers of ten outside the range of doubles are cut off. -/
def toFloat (n : Numeral) : Float :=
  let mantissa := digitsValue n.mantissa
  let places : Int := match n.fraction with
    | none => 0
    | some ds => ds.toList.length
  let exponent : Int := match n.exponent with
    | none => 0
    | some e => if e.negative then -(e.digits.value : Int) else e.digits.value
  let power := exponent - places
  let bound : Int := 1000 + n.mantissa.length
  let magnitude :=
    if mantissa = 0 then 0.0
    else if power > bound then 1.0 / 0.0
    else if power < -bound then 0.0
    else Float.ofScientific mantissa (decide (power < 0)) power.natAbs
  if n.negative then -magnitude else magnitude

end Numeral

end CircuitForm
