/-
# Socks6.Json.Reader — reading JSON text

The reader takes the grammar at its word: no trailing commas, no leading zeros,
no raw control characters in strings, nothing but blanks behind the value.  Each
reader gives a value and the characters behind it.
-/
import Socks6.Json.Value

namespace Socks6.Json

/-- The characters behind leading blanks. -/
def skipBlanks (cs : List Char) : List Char :=
  cs.dropWhile fun c => c = ' ' ∨ c = '\t' ∨ c = '\n' ∨ c = '\r'

/-- The characters behind `word`, if they start with it. -/
def skipWord? (word : String) (cs : List Char) : Option (List Char) :=
  if word.toList.isPrefixOf cs then some (cs.drop word.toList.length) else none

/-! ## Numbers -/

/-- The characters behind a run of at least one digit. -/
def skipDigits? (cs : List Char) : Option (List Char) :=
  match cs with
  | c :: cs => if c.isDigit then some (cs.dropWhile Char.isDigit) else none
  | [] => none

/-- The characters behind a fraction, which may be missing. -/
def skipFraction? : List Char → Option (List Char)
  | '.' :: cs => skipDigits? cs
  | cs => some cs

/-- The characters behind an exponent, which may be missing. -/
def skipExponent? : List Char → Option (List Char)
  | 'e' :: cs | 'E' :: cs =>
    match cs with
    | '+' :: ds | '-' :: ds => skipDigits? ds
    | ds => skipDigits? ds
  | cs => some cs

/-- The digits of a whole part and what follows them; a zero stands alone. -/
def wholePart? : List Char → Option (List Char × List Char)
  | '0' :: cs => some (['0'], cs)
  | c :: cs =>
    if c.isDigit then some (c :: cs.takeWhile Char.isDigit, cs.dropWhile Char.isDigit) else none
  | [] => none

/-- A number without its sign. -/
def unsigned? (cs : List Char) : Option (Option Nat × List Char) := do
  let (digits, behind) ← wholePart? cs
  let rest ← skipExponent? (← skipFraction? behind)
  let whole := digits.foldl (fun n c => n * 10 + (c.toNat - '0'.toNat)) 0
  return (if rest.length = behind.length then some whole else none, rest)

def number? (cs : List Char) : Option (Option Nat × List Char) :=
  match cs with
  | '-' :: cs => (unsigned? cs).map fun (_, rest) => (none, rest)
  | cs => unsigned? cs

/-! ## Strings -/

/-- The number that a hexadecimal digit stands for. -/
def hexValue? (c : Char) : Option Nat :=
  if c.isDigit then some (c.toNat - '0'.toNat)
  else if 'a' ≤ c ∧ c ≤ 'f' then some (c.toNat - 'a'.toNat + 10)
  else if 'A' ≤ c ∧ c ≤ 'F' then some (c.toNat - 'A'.toNat + 10)
  else none

/-- The number that two hexadecimal digits spell. -/
def hexByte? (high low : Char) : Option Nat := return (← hexValue? high) * 16 + (← hexValue? low)

/-- The code point that one escaped letter stands for. -/
def escape? : Char → Option Nat
  | '"' => some 0x22
  | '\\' => some 0x5C
  | '/' => some 0x2F
  | 'b' => some 0x08
  | 'f' => some 0x0C
  | 'n' => some 0x0A
  | 'r' => some 0x0D
  | 't' => some 0x09
  | _ => none

/-- The code units of a string up to its closing quote, and what follows it.
Escaped units are kept as they are, so a pair of surrogates is two units. -/
def units? : List Char → Option (List Nat × List Char)
  | [] => none
  | '"' :: rest => some ([], rest)
  | '\\' :: 'u' :: a :: b :: c :: d :: rest => do
    let unit := (← hexByte? a b) * 256 + (← hexByte? c d)
    let (units, behind) ← units? rest
    return (unit :: units, behind)
  | '\\' :: c :: rest => do
    let point ← escape? c
    let (units, behind) ← units? rest
    return (point :: units, behind)
  | c :: rest =>
    if c.toNat < 0x20 then none
    else do
      let (units, behind) ← units? rest
      return (c.toNat :: units, behind)

/-- Joins a high surrogate and the low one behind it. -/
def joinSurrogates : List Nat → List Nat
  | high :: low :: rest =>
    if 0xD800 ≤ high ∧ high < 0xDC00 ∧ 0xDC00 ≤ low ∧ low < 0xE000 then
      (0x10000 + (high - 0xD800) * 0x400 + (low - 0xDC00)) :: joinSurrogates rest
    else high :: joinSurrogates (low :: rest)
  | points => points

/-- A string, behind its opening quote. -/
def string? (cs : List Char) : Option (List Nat × List Char) := do
  let (units, rest) ← units? cs
  return (joinSurrogates units, rest)

/-! ## Values -/

mutual

/-- A value; blanks in front of it are passed over. -/
def value? : (fuel : Nat) → List Char → Option (Json × List Char)
  | 0, _ => none
  | fuel + 1, cs =>
    match skipBlanks cs with
    | '{' :: rest =>
      match skipBlanks rest with
      | '}' :: rest => some (.object [], rest)
      | rest => (members? fuel rest).map fun (ms, rest) => (.object ms, rest)
    | '[' :: rest =>
      match skipBlanks rest with
      | ']' :: rest => some (.array [], rest)
      | rest => (items? fuel rest).map fun (items, rest) => (.array items, rest)
    | '"' :: rest => (string? rest).map fun (points, rest) => (.string points, rest)
    | 'n' :: rest => (skipWord? "ull" rest).map fun rest => (.null, rest)
    | 't' :: rest => (skipWord? "rue" rest).map fun rest => (.bool true, rest)
    | 'f' :: rest => (skipWord? "alse" rest).map fun rest => (.bool false, rest)
    | cs => (number? cs).map fun (natural?, rest) => (.number natural?, rest)

/-- The items of an array, at least one, and what follows the bracket. -/
def items? : (fuel : Nat) → List Char → Option (List Json × List Char)
  | 0, _ => none
  | fuel + 1, cs => do
    let (item, rest) ← value? fuel cs
    match skipBlanks rest with
    | ',' :: rest =>
      let (items, rest) ← items? fuel rest
      return (item :: items, rest)
    | ']' :: rest => return ([item], rest)
    | _ => none

/-- The members of an object, at least one, and what follows the brace. -/
def members? : (fuel : Nat) → List Char → Option (List (List Nat × Json) × List Char)
  | 0, _ => none
  | fuel + 1, cs =>
    match skipBlanks cs with
    | '"' :: rest => do
      let (key, rest) ← string? rest
      match skipBlanks rest with
      | ':' :: rest =>
        let (value, rest) ← value? fuel rest
        match skipBlanks rest with
        | ',' :: rest =>
          let (ms, rest) ← members? fuel rest
          return ((key, value) :: ms, rest)
        | '}' :: rest => return ([(key, value)], rest)
        | _ => none
      | _ => none
    | _ => none

end

/-- The value of a text.  Every two steps of the reader take at least one
character, so twice the length is fuel enough. -/
def ofString? (text : String) : Option Json := do
  let (value, rest) ← value? (2 * text.length + 2) text.toList
  if (skipBlanks rest).isEmpty then return value else none

end Socks6.Json
