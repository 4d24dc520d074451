/-
# Socks6.Policy — how a received option block is treated

A policy says whether unrecognized options are kept, and how many records of a
block are looked at.  It can be overridden from two environment variables; a
value that is no boolean, or no number, overrides nothing.
-/
namespace Socks6

/-- How a received option block is treated. -/
structure Policy where
  /-- Keep unrecognized options, to pass them on. -/
  retainUnrecognized : Bool
  /-- Look at no more records than this. -/
  maxOptions : Nat
  deriving DecidableEq, Repr

namespace Policy

/-- Keeps everything, up to a generous number of records. -/
def passthrough : Policy := ⟨true, 1024⟩

/-- Keeps only what is understood. -/
def strict : Policy := ⟨false, 64⟩

/-- What holds if nothing is said. -/
def default : Policy := passthrough

/-- The largest number that a limit can be. -/
def maxLimit : Nat := 18446744073709551615

/-- A boolean is the word `true` or the word `false`. -/
def boolean? (text : String) : Option Bool :=
  if text = "true" then some true
  else if text = "false" then some false
  else none

/-- The number that a non-empty string of decimal digits spells. -/
def decimal? (digits : List Char) : Option Nat :=
  if digits.isEmpty || !digits.all Char.isDigit then none
  else some (digits.foldl (fun n c => n * 10 + (c.toNat - '0'.toNat)) 0)

/-- A limit is a number in decimal digits, with or without a plus sign in front,
and not above `maxLimit`. -/
def limit? (text : String) : Option Nat :=
  let digits := match text.toList with
    | '+' :: rest => rest
    | all => all
  (decimal? digits).filter (· ≤ maxLimit)

/-- The default policy, overridden by the values of two environment variables. -/
def ofEnvironment (retain limit : Option String) : Policy where
  retainUnrecognized := (retain.bind boolean?).getD default.retainUnrecognized
  maxOptions := (limit.bind limit?).getD default.maxOptions

end Policy

end Socks6
