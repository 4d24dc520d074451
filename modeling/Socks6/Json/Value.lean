/-
# Socks6.Json.Value — JSON values as far as settings need them

A string is a list of code points, because an escape can spell one half of a
surrogate pair, which is no character; `text?` gives the text of a string that
has none of these.  Of a number only this matters: whether it is written as a
natural number, and then which one.  Objects keep their members as written.
-/
namespace Socks6

inductive Json where
  | null
  | bool (b : Bool)
  /-- A number; `none` for one with a sign, a fraction or an exponent. -/
  | number (natural? : Option Nat)
  | string (points : List Nat)
  | array (items : List Json)
  | object (members : List (List Nat × Json))
  deriving Repr

namespace Json

/-- The text of a list of code points, if each is a character. -/
def text? (points : List Nat) : Option String :=
  if points.all Nat.isValidChar then some (String.ofList (points.map Char.ofNat)) else none

/-- The string of a text. -/
def ofText (text : String) : Json := .string (text.toList.map Char.toNat)

/-- An object with the given members. -/
def ofMembers (members : List (String × Json)) : Json :=
  .object (members.map fun (key, value) => (key.toList.map Char.toNat, value))

end Json

end Socks6
