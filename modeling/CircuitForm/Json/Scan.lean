import CircuitForm.Json.Fault

/-!
# Tokens of a JSON text

Each function reads one token at the front of a text and gives what it stands for together
with the unread rest. Only space, tab and the two line breaks are blank between tokens.
-/

namespace CircuitForm.Json.Scan

def isBlank (b : UInt8) : Bool :=
  b == Ascii.space || b == Ascii.newline || b == Ascii.tab || b == Ascii.carriageReturn

def skipBlank (text : Bytes) : Bytes :=
  text.dropWhile isBlank

def word : (letters : Bytes) → Bytes → Except Fault Bytes
  | [], rest => .ok rest
  | _ :: _, [] => .error (.behind (.endIn .value) [])
  | letter :: letters, b :: rest =>
    if b = letter then word letters rest else .error (.behind .misspelledWord rest)

def isDigit (b : UInt8) : Bool :=
  (Digit.ofByte? b).isSome

def digits (text : Bytes) : List Digit × Bytes :=
  ((text.takeWhile isDigit).filterMap Digit.ofByte?, text.dropWhile isDigit)

/-- Reads the digits before the point. A zero ends them and no digit may follow it. -/
def whole (atEnd : Malformed) : Bytes → Except Fault (WholeDigits × Bytes)
  | [] => .error (.behind atEnd [])
  | b :: rest =>
    match Digit.ofByte? b with
    | none => .error (.behind .badNumber rest)
    | some d =>
      if zero : d.val = 0 then
        if (rest.head?.map isDigit).getD false then .error (.ahead .badNumber rest)
        else .ok (⟨⟨d, []⟩, fun _ => rfl⟩, rest)
      else
        .ok (⟨⟨d, (digits rest).1⟩, fun h => absurd h zero⟩, (digits rest).2)

def fraction (atEnd : Malformed) : Bytes → Except Fault (Option Digits × Bytes)
  | [] => .ok (none, [])
  | b :: rest =>
    if b = Ascii.point then
      match digits rest with
      | ([], unread) => .error (.ahead (if unread.isEmpty then atEnd else .badNumber) unread)
      | (d :: ds, unread) => .ok (some ⟨d, ds⟩, unread)
    else
      .ok (none, b :: rest)

/-- Reads an optional sign of an exponent; `true` means minus. -/
def sign : Bytes → Bool × Bytes
  | [] => (false, [])
  | b :: rest =>
    if b = Ascii.minus then (true, rest)
    else if b = Ascii.plus then (false, rest)
    else (false, b :: rest)

def exponent (atEnd : Malformed) : Bytes → Except Fault (Option Exponent × Bytes)
  | [] => .ok (none, [])
  | b :: rest =>
    if b = Ascii.ofChar 'e' || b = Ascii.ofChar 'E' then
      match sign rest with
      | (_, []) => .error (.behind atEnd [])
      | (negative, c :: unread) =>
        match Digit.ofByte? c with
        | none => .error (.behind .badNumber unread)
        | some d => .ok (some ⟨negative, ⟨d, (digits unread).1⟩⟩, (digits unread).2)
    else
      .ok (none, b :: rest)

def minus : Bytes → Bool × Bytes
  | [] => (false, [])
  | b :: rest => if b = Ascii.minus then (true, rest) else (false, b :: rest)

/-- Reads a number; `atEnd` is the fault of a text that ends where a digit is needed. -/
def numeral (atEnd : Malformed) (text : Bytes) : Except Fault (Numeral × Bytes) := do
  let (whole, afterWhole) ← whole atEnd (minus text).2
  let (fraction, afterFraction) ← fraction atEnd afterWhole
  let (exponent, rest) ← exponent atEnd afterFraction
  .ok (⟨(minus text).1, whole, fraction, exponent⟩, rest)

def hexValue? (b : UInt8) : Option Nat :=
  if 0x30 ≤ b && b ≤ 0x39 then some (b.toNat - 0x30)
  else if 0x41 ≤ b && b ≤ 0x46 then some (b.toNat - 0x41 + 10)
  else if 0x61 ≤ b && b ≤ 0x66 then some (b.toNat - 0x61 + 10)
  else none

/-- Reads four hexadecimal digits. All four bytes are taken before they are looked at. -/
def fourHex : Bytes → Except Fault (Nat × Bytes)
  | a :: b :: c :: d :: rest =>
    match hexValue? a, hexValue? b, hexValue? c, hexValue? d with
    | some a, some b, some c, some d => .ok (((a * 16 + b) * 16 + c) * 16 + d, rest)
    | _, _, _, _ => .error (.behind .badEscape rest)
  | _ => .error (.behind (.endIn .string) [])

def isLowSurrogate (code : Nat) : Bool :=
  0xDC00 ≤ code && code ≤ 0xDFFF

def isHighSurrogate (code : Nat) : Bool :=
  0xD800 ≤ code && code ≤ 0xDBFF

/-- Takes one byte that the second half of a surrogate pair must have. -/
def pairByte (expected : UInt8) : Bytes → Except Fault Bytes
  | [] => .error (.behind (.endIn .string) [])
  | b :: rest =>
    if b = expected then .ok rest else .error (.behind .unfinishedSurrogate rest)

/-- Reads the code of an escape, one half of a surrogate pair never standing alone. -/
def codePoint (text : Bytes) : Except Fault (Char × Bytes) := do
  let (code, rest) ← fourHex text
  if isLowSurrogate code then .error (.behind .loneSurrogate rest)
  else if isHighSurrogate code then
    let rest ← pairByte Ascii.backslash rest
    let rest ← pairByte (Ascii.ofChar 'u') rest
    let (low, rest) ← fourHex rest
    if isLowSurrogate low then
      .ok (Char.ofNat ((code - 0xD800) * 0x400 + (low - 0xDC00) + 0x10000), rest)
    else
      .error (.behind .loneSurrogate rest)
  else
    .ok (Char.ofNat code, rest)

def escapedByte? (b : UInt8) : Option UInt8 :=
  if b = Ascii.quote || b = Ascii.backslash || b = Ascii.slash then some b
  else if b = Ascii.ofChar 'b' then some 0x08
  else if b = Ascii.ofChar 'f' then some 0x0C
  else if b = Ascii.ofChar 'n' then some Ascii.newline
  else if b = Ascii.ofChar 'r' then some Ascii.carriageReturn
  else if b = Ascii.ofChar 't' then some Ascii.tab
  else none

def escape : Bytes → Except Fault (Bytes × Bytes)
  | [] => .error (.behind (.endIn .string) [])
  | b :: rest =>
    match escapedByte? b with
    | some byte => .ok ([byte], rest)
    | none =>
      if b = Ascii.ofChar 'u' then
        (codePoint rest).map fun (c, rest) => (String.utf8EncodeChar c, rest)
      else
        .error (.behind .badEscape rest)

def isPlain (b : UInt8) : Bool :=
  b != Ascii.quote && b != Ascii.backslash && 0x20 ≤ b

/-- Reads a string up to its closing quote; `fuel` bounds the number of escapes. -/
def content : (fuel : Nat) → Bytes → Except Fault (Bytes × Bytes)
  | 0, _ => .error (.behind (.endIn .string) [])
  | fuel + 1, text =>
    match text.dropWhile isPlain with
    | [] => .error (.behind (.endIn .string) [])
    | b :: rest =>
      if b = Ascii.quote then .ok (text.takeWhile isPlain, rest)
      else if b = Ascii.backslash then do
        let (piece, rest) ← escape rest
        let (more, rest) ← content fuel rest
        .ok (text.takeWhile isPlain ++ piece ++ more, rest)
      else
        .error (.behind .controlCharacter rest)

/-- Reads a string after its opening quote. Whether its bytes are UTF-8 is asked only at its end;
the place of the fault is then the first byte that is not. -/
def string (text : Bytes) : Except Fault (String × Bytes) := do
  let (bytes, rest) ← content (text.length + 1) text
  match Bytes.toString? bytes with
  | some s => .ok (s, rest)
  | none => .error (.ahead .notUnicode (Bytes.fromInvalid text.length text))

end CircuitForm.Json.Scan
