/-!
# Machine words

The bounds of the integers that fit into words of 32 and 64 bits.
-/

namespace CircuitForm.Word

/-- The power `2 ^ 32`: unsigned words of 32 bits are below it. -/
abbrev bound32 : Nat := 4294967296

/-- The power `2 ^ 64`: unsigned words of 64 bits are below it. -/
abbrev bound64 : Nat := 18446744073709551616

/-- Signed words of 64 bits start at `-2 ^ 63` and end below `2 ^ 63`. -/
def fits64 (i : Int) : Bool :=
  -9223372036854775808 ≤ i && i < 9223372036854775808

end CircuitForm.Word
