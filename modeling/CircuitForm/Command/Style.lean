/-!
# Styles of terminal text

A style is a sequence of control codes that is set before a text and reset after it. Where the
text holds a reset of its own the style is set again behind it.
-/

namespace CircuitForm

inductive Style where
  | bold
  | dimmed
  | cyan
  | yellow
  | boldGreen
  | boldRed
deriving DecidableEq, Repr

namespace Style

def parameters : Style → String
  | .bold => "1"
  | .dimmed => "2"
  | .cyan => "36"
  | .yellow => "33"
  | .boldGreen => "1;32"
  | .boldRed => "1;31"

def set (style : Style) : String :=
  "\x1b[" ++ style.parameters ++ "m"

def reset : String :=
  "\x1b[0m"

def paint (style : Style) (colour : Bool) (text : String) : String :=
  if colour then
    style.set ++ (reset ++ style.set).intercalate (text.splitOn reset) ++ reset
  else
    text

/-- Whether to colour, from the variables `CLICOLOR_FORCE`, `NO_COLOR` and `CLICOLOR` and whether
the output goes to a terminal. The value `0` of a variable says no, any other yes. -/
def isWanted (force never allowed : Option String) (terminal : Bool) : Bool :=
  if force.isSome ∧ force ≠ some "0" then true
  else if never.isSome then false
  else allowed ≠ some "0" && terminal

end Style

end CircuitForm
