import CircuitForm.Json.Numeral

/-!
# Number texts

How a number may be spelled in JSON. A numeral is what such a text stands for: it keeps all the
digits and forgets only how the exponent was marked, and it is printed as the normal spelling, with
a small mark and with a sign in any case.
-/

namespace CircuitForm

inductive ExponentSign where
  | absent
  | plus
  | minus
deriving DecidableEq, Repr

structure ExponentText where
  capital : Bool
  sign : ExponentSign
  digits : Digits
deriving DecidableEq, Repr

/-- The texts `-?(0|[1-9][0-9]*)(\.[0-9]+)?([eE][+-]?[0-9]+)?`, by their parts. -/
structure NumberText where
  negative : Bool
  whole : WholeDigits
  fraction : Option Digits
  exponent : Option ExponentText
deriving DecidableEq, Repr

namespace ExponentSign

def chars : ExponentSign → List Char
  | .absent => []
  | .plus => ['+']
  | .minus => ['-']

def isMinus (sign : ExponentSign) : Bool :=
  sign == .minus

def explicit (sign : ExponentSign) : ExponentSign :=
  if sign.isMinus then .minus else .plus

end ExponentSign

namespace ExponentText

def mark (e : ExponentText) : Char :=
  if e.capital then 'E' else 'e'

def chars (e : ExponentText) : List Char :=
  e.mark :: (e.sign.chars ++ e.digits.chars)

def exponent (e : ExponentText) : Exponent :=
  ⟨e.sign.isMinus, e.digits⟩

def normal (e : ExponentText) : ExponentText :=
  { e with capital := false, sign := e.sign.explicit }

def ofExponent (e : Exponent) : ExponentText :=
  ⟨false, if e.negative then .minus else .plus, e.digits⟩

theorem exponent_ofExponent (e : Exponent) : (ofExponent e).exponent = e := by
  obtain ⟨negative, digits⟩ := e
  cases negative <;> rfl

theorem ofExponent_exponent (e : ExponentText) : ofExponent e.exponent = e.normal := rfl

end ExponentText

namespace NumberText

def fractionChars : Option Digits → List Char
  | none => []
  | some ds => '.' :: ds.chars

def exponentChars : Option ExponentText → List Char
  | none => []
  | some e => e.chars

def chars (t : NumberText) : List Char :=
  (if t.negative then ['-'] else []) ++ t.whole.val.chars ++ fractionChars t.fraction ++
    exponentChars t.exponent

def text (t : NumberText) : String :=
  String.ofList t.chars

/-- The number that the text stands for. -/
def numeral (t : NumberText) : Numeral :=
  ⟨t.negative, t.whole, t.fraction, t.exponent.map ExponentText.exponent⟩

/-- The same text with the exponent marked by `e` and a sign. -/
def normal (t : NumberText) : NumberText :=
  { t with exponent := t.exponent.map .normal }

def ofNumeral (n : Numeral) : NumberText :=
  ⟨n.negative, n.whole, n.fraction, n.exponent.map .ofExponent⟩

theorem numeral_ofNumeral (n : Numeral) : (ofNumeral n).numeral = n := by
  obtain ⟨negative, whole, fraction, exponent⟩ := n
  cases exponent with
  | none => rfl
  | some e => simp [ofNumeral, numeral, ExponentText.exponent_ofExponent]

theorem ofNumeral_numeral (t : NumberText) : ofNumeral t.numeral = t.normal := by
  obtain ⟨negative, whole, fraction, exponent⟩ := t
  cases exponent with
  | none => rfl
  | some e => simp [ofNumeral, numeral, normal, ExponentText.ofExponent_exponent]

theorem numeral_normal (t : NumberText) : t.normal.numeral = t.numeral := by
  rw [← ofNumeral_numeral, numeral_ofNumeral]

theorem chars_ofNumeral (n : Numeral) : (ofNumeral n).chars = n.chars := by
  obtain ⟨negative, whole, fraction, exponent⟩ := n
  cases fraction <;> rcases exponent with _ | ⟨_ | _, _⟩ <;> rfl

theorem chars_numeral (t : NumberText) : t.numeral.chars = t.normal.chars := by
  rw [← chars_ofNumeral, ofNumeral_numeral]

theorem text_numeral (t : NumberText) : t.numeral.text = t.normal.text :=
  congrArg String.ofList t.chars_numeral

end NumberText

end CircuitForm
