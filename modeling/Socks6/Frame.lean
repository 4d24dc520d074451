/-
# Socks6.Frame — option records as the wire shows them

A record is a kind, its own length, and a body; the length counts the four bytes
of the header.  A frame is a record whose body nobody has looked into.  It can
be written out again as it came.
-/
import Socks6.Cursor

namespace Socks6

/-- An option record with an uninterpreted body. -/
structure Frame where
  kind : UInt16
  body : Bytes
  deriving DecidableEq, Repr

namespace Frame

/-- The length of a header: a kind and a length. -/
def headerSize : Nat := 4

/-- The most bytes that the records of one block may take. -/
def maxBlock : Nat := 65535

/-- The longest body of a frame that fits into a block. -/
def maxBody : Nat := maxBlock - headerSize

/-- A frame whose body is not too long to be written. -/
def ofBody (kind : UInt16) (body : Bytes) : Except Error Frame :=
  if maxBody < body.length then
    .error (.invalidField "raw option" (.payloadTooLong body.length maxBody))
  else .ok ⟨kind, body⟩

def size (f : Frame) : Nat := headerSize + f.body.length

/-- What is written for a header. -/
def header (kind length : UInt16) : List Bytes := [Bytes.ofUInt16 kind, Bytes.ofUInt16 length]

/-- Writes the frame, unless its length does not fit into the header. -/
def write (f : Frame) : CursorM Unit := do
  if maxBlock < f.size then
    throw (.invalidField "raw option" (.recordTooLong f.size))
  CursorM.writeAll (header f.kind (UInt16.ofNat f.size) ++ [f.body])

/-- Reads a frame: first a header, then as much of a body as it declares. -/
def read : CursorM Frame := do
  let bytes ← CursorM.read headerSize
  let kind := UInt16.ofNat (Bytes.value (bytes.val.take 2))
  let length := Bytes.value (bytes.val.drop 2)
  if length < headerSize then
    throw (.invalidField "option length" (.shorterThanHeader length headerSize))
  let body ← CursorM.read (length - headerSize)
  return ⟨kind, body.val⟩

def text (f : Frame) : String :=
  "RawOption \x7b kind: " ++ Hex.word f.kind ++ ", payload: \"" ++ Hex.ofBytes f.body ++ "\" \x7d"

end Frame

end Socks6
