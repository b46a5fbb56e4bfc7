import CircuitForm.Filter.Basic
import CircuitForm.Filter.Token

/-!
# Reading filters

From loose to tight the operators are `|`, `,`, `//`, `or`, `and`, the comparisons, `+` with `-`,
and `*`. The first and the third group to the right, the others to the left. The functions below
call each other and spend one unit of fuel on each call; every token allows for a few calls.
-/

namespace CircuitForm.Filter

inductive Operator where
  | pipe
  | comma
  | alternative
  | disjunction
  | conjunction
  | compare (op : CompareOp)
  | math (op : MathOp)
deriving DecidableEq, Repr

namespace Operator

def ofToken? : Token → Option Operator
  | .mark .bar => some .pipe
  | .mark .comma => some .comma
  | .mark .twoSlashes => some .alternative
  | .word "or" => some .disjunction
  | .word "and" => some .conjunction
  | .mark .equal => some (.compare .equal)
  | .mark .unequal => some (.compare .unequal)
  | .mark .less => some (.compare .less)
  | .mark .lessEqual => some (.compare .lessEqual)
  | .mark .greater => some (.compare .greater)
  | .mark .greaterEqual => some (.compare .greaterEqual)
  | .mark .plus => some (.math .add)
  | .mark .minus => some (.math .subtract)
  | .mark .star => some (.math .multiply)
  | _ => none

def level : Operator → Nat
  | .pipe => 0
  | .comma => 1
  | .alternative => 2
  | .disjunction => 3
  | .conjunction => 4
  | .compare _ => 5
  | .math .add | .math .subtract => 6
  | .math .multiply => 7

/-- The loosest operator that may stand bare in the right operand. -/
def rightLevel (op : Operator) : Nat :=
  match op with
  | .pipe | .alternative => op.level
  | _ => op.level + 1

def join : Operator → Filter → Filter → Filter
  | .pipe => .pipe
  | .comma => .comma
  | .alternative => .alternative
  | .disjunction => .disjunction
  | .conjunction => .conjunction
  | .compare op => .compare op
  | .math op => .math op

end Operator

def keywords : List String :=
  ["def", "if", "then", "elif", "else", "end", "and", "or", "as", "reduce", "foreach", "try",
    "catch", "label", "break", "import", "include"]

def named (name : String) : Filter :=
  .literal (.string name)

/-- The question marks in front, any number of which mean the same as one. -/
def questions : List Token → Bool × List Token
  | .mark .question :: rest => (true, rest.dropWhile (· = .mark .question))
  | tokens => (false, tokens)

def expect (token : Token) : List Token → Option (List Token)
  | [] => none
  | first :: rest => if first = token then some rest else none

mutual

/-- Reads operands joined by operators of at least the given level. In the value of a member a
comma ends the filter. -/
def expression : (fuel : Nat) → (commas : Bool) → (level : Nat) → List Token →
    Option (Filter × List Token)
  | 0, _, _, _ => none
  | fuel + 1, commas, level, tokens => do
    let (left, rest) ← operand fuel tokens
    operators fuel commas level left rest

def operators : (fuel : Nat) → (commas : Bool) → (level : Nat) → Filter → List Token →
    Option (Filter × List Token)
  | 0, _, _, _, _ => none
  | _ + 1, _, _, left, [] => some (left, [])
  | fuel + 1, commas, level, left, token :: rest =>
    match Operator.ofToken? token with
    | none => some (left, token :: rest)
    | some op =>
      if op.level < level ∨ (op = .comma ∧ !commas) then some (left, token :: rest)
      else do
        let (right, rest) ← expression fuel commas op.rightLevel rest
        operators fuel commas level (op.join left right) rest

def operand : (fuel : Nat) → List Token → Option (Filter × List Token)
  | 0, _ => none
  | fuel + 1, .mark .minus :: rest => do
    let (f, rest) ← operand fuel rest
    some (.negate f, rest)
  | fuel + 1, .field name :: rest =>
    let (lenient, rest) := questions rest
    parts fuel (.index .identity (named name) lenient) rest
  | fuel + 1, .mark .point :: .quoted name :: rest =>
    let (lenient, rest) := questions rest
    parts fuel (.index .identity (named name) lenient) rest
  | fuel + 1, tokens => do
    let (f, rest) ← atom fuel tokens
    match questions rest with
    | (true, rest) => parts fuel (.attempt f) rest
    | (false, rest) => parts fuel f rest

def parts : (fuel : Nat) → Filter → List Token → Option (Filter × List Token)
  | 0, _, _ => none
  | fuel + 1, base, .field name :: rest =>
    let (lenient, rest) := questions rest
    parts fuel (.index base (named name) lenient) rest
  | fuel + 1, base, .mark .point :: .quoted name :: rest =>
    let (lenient, rest) := questions rest
    parts fuel (.index base (named name) lenient) rest
  | fuel + 1, base, .mark .point :: .mark .openBracket :: rest => bracket fuel base rest
  | fuel + 1, base, .mark .openBracket :: rest => bracket fuel base rest
  | _ + 1, base, rest => some (base, rest)

def bracket : (fuel : Nat) → Filter → List Token → Option (Filter × List Token)
  | 0, _, _ => none
  | fuel + 1, base, .mark .closeBracket :: rest =>
    let (lenient, rest) := questions rest
    parts fuel (.each base lenient) rest
  | fuel + 1, base, .mark .colon :: rest => do
    let (high, rest) ← expression fuel true 0 rest
    let rest ← expect (.mark .closeBracket) rest
    let (lenient, rest) := questions rest
    parts fuel (.slice base (.literal .null) high lenient) rest
  | fuel + 1, base, tokens => do
    let (at_, rest) ← expression fuel true 0 tokens
    match rest with
    | .mark .closeBracket :: rest =>
      let (lenient, rest) := questions rest
      parts fuel (.index base at_ lenient) rest
    | .mark .colon :: .mark .closeBracket :: rest =>
      let (lenient, rest) := questions rest
      parts fuel (.slice base at_ (.literal .null) lenient) rest
    | .mark .colon :: rest => do
      let (high, rest) ← expression fuel true 0 rest
      let rest ← expect (.mark .closeBracket) rest
      let (lenient, rest) := questions rest
      parts fuel (.slice base at_ high lenient) rest
    | _ => none

def atom : (fuel : Nat) → List Token → Option (Filter × List Token)
  | 0, _ => none
  | _ + 1, .mark .point :: rest => some (.identity, rest)
  | _ + 1, .number n :: rest => some (.literal (.number n), rest)
  | _ + 1, .quoted s :: rest => some (.literal (.string s), rest)
  | _ + 1, .variable name :: rest => some (.variable name, rest)
  | fuel + 1, .mark .openParen :: rest => do
    let (f, rest) ← expression fuel true 0 rest
    let rest ← expect (.mark .closeParen) rest
    some (f, rest)
  | _ + 1, .mark .openBracket :: .mark .closeBracket :: rest => some (.literal (.array []), rest)
  | fuel + 1, .mark .openBracket :: rest => do
    let (f, rest) ← expression fuel true 0 rest
    let rest ← expect (.mark .closeBracket) rest
    some (.array f, rest)
  | _ + 1, .mark .openBrace :: .mark .closeBrace :: rest => some (.object [], rest)
  | fuel + 1, .mark .openBrace :: rest => do
    let (entries, rest) ← members fuel rest
    some (.object entries, rest)
  | fuel + 1, .word name :: rest =>
    if name = "if" then branches fuel rest
    else if name ∈ keywords then none
    else
      match rest with
      | .mark .openParen :: rest => do
        let (arguments, rest) ← callArguments fuel rest
        some (.call name arguments, rest)
      | rest => some (.call name [], rest)
  | _ + 1, _ => none

/-- Reads a condition and its branches. Without `else` the input is passed on. -/
def branches : (fuel : Nat) → List Token → Option (Filter × List Token)
  | 0, _ => none
  | fuel + 1, tokens => do
    let (condition, rest) ← expression fuel true 0 tokens
    let rest ← expect (.word "then") rest
    let (yes, rest) ← expression fuel true 0 rest
    match rest with
    | .word "elif" :: rest => do
      let (no, rest) ← branches fuel rest
      some (.conditional condition yes no, rest)
    | .word "else" :: rest => do
      let (no, rest) ← expression fuel true 0 rest
      let rest ← expect (.word "end") rest
      some (.conditional condition yes no, rest)
    | .word "end" :: rest => some (.conditional condition yes .identity, rest)
    | _ => none

def callArguments : (fuel : Nat) → List Token → Option (List Filter × List Token)
  | 0, _ => none
  | fuel + 1, tokens => do
    let (f, rest) ← expression fuel true 0 tokens
    match rest with
    | .mark .closeParen :: rest => some ([f], rest)
    | .mark .semicolon :: rest => do
      let (more, rest) ← callArguments fuel rest
      some (f :: more, rest)
    | _ => none

def members : (fuel : Nat) → List Token → Option (List (Filter × Filter) × List Token)
  | 0, _ => none
  | fuel + 1, tokens => do
    let (entry, rest) ← member fuel tokens
    match rest with
    | .mark .closeBrace :: rest => some ([entry], rest)
    | .mark .comma :: rest => do
      let (more, rest) ← members fuel rest
      some (entry :: more, rest)
    | _ => none

/-- Reads a name and a value. A name alone stands for the member of the input with that name. -/
def member : (fuel : Nat) → List Token → Option ((Filter × Filter) × List Token)
  | 0, _ => none
  | fuel + 1, .mark .openParen :: rest => do
    let (key, rest) ← expression fuel true 0 rest
    let rest ← expect (.mark .closeParen) rest
    let rest ← expect (.mark .colon) rest
    let (value, rest) ← expression fuel false 0 rest
    some ((key, value), rest)
  | _ + 1, .variable name :: rest => some ((named name, .variable name), rest)
  | fuel + 1, .word name :: rest => memberValue fuel (named name) rest
  | fuel + 1, .quoted name :: rest => memberValue fuel (named name) rest
  | _ + 1, _ => none

def memberValue : (fuel : Nat) → Filter → List Token →
    Option ((Filter × Filter) × List Token)
  | 0, _, _ => none
  | fuel + 1, key, .mark .colon :: rest => do
    let (value, rest) ← expression fuel false 0 rest
    some ((key, value), rest)
  | _ + 1, key, rest => some ((key, .index .identity key false), rest)

end

def parse? (source : String) : Option Filter := do
  let tokens ← Token.ofText? source
  match ← expression (8 * tokens.length + 8) true 0 tokens with
  | (f, []) => some f
  | (_, _ :: _) => none

end CircuitForm.Filter
