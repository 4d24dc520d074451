/-
# Socks6.ShortString — byte strings behind a one-byte length

Domain names, usernames and passwords travel as a length byte and that many
bytes.  The length is part of the type, so writing one never has to refuse.  As
a *name* such a string must besides be non-empty and free of zero bytes; this is
asked where a name is used, not where a string is built.
-/
import Socks6.Cursor
import Socks6.Text.Utf8

namespace Socks6

/-- A byte string whose length fits into one byte. -/
structure ShortString where
  bytes : Bytes
  length_le : bytes.length ≤ 255
  deriving DecidableEq, Repr

namespace ShortString

def maxLength : Nat := 255

def empty : ShortString := ⟨[], Nat.zero_le _⟩

/-- A byte string as a short one, unless it is too long. -/
def ofBytes (bs : Bytes) : Except Error ShortString :=
  if h : bs.length ≤ 255 then .ok ⟨bs, h⟩
  else .error (.invalidField "length-prefixed string" (.tooLong bs.length maxLength))

def length (s : ShortString) : Nat := s.bytes.length

/-- A name has at least one byte, and none of its bytes is zero. -/
def checkName (s : ShortString) (field : String) : Except Error Unit :=
  if s.bytes.isEmpty then .error (.invalidField field .empty)
  else match s.bytes.findIdx? (· == 0) with
    | some index => .error (.invalidField field (.zeroByte index))
    | none => .ok ()

def size (s : ShortString) : Nat := 1 + s.length

/-- What is written for the string: its length, then its bytes. -/
def pieces (s : ShortString) : List Bytes := [[UInt8.ofNat s.length], s.bytes]

def write (s : ShortString) : CursorM Unit := CursorM.writeAll s.pieces

def read : CursorM ShortString := do
  let length ← CursorM.readU8
  let bs ← CursorM.read length.toNat
  return ⟨bs.val, by have := bs.property; have := length.toNat_lt; omega⟩

/-- The string as text, ill-formed parts replaced. -/
def text (s : ShortString) : String := Utf8.lossy s.bytes

/-- Strings are ordered as their bytes are. -/
def order (a b : ShortString) : Ordering := compare a.bytes b.bytes

theorem length_pieces (s : ShortString) : s.pieces.flatten.length = s.size := by
  simp [pieces, size, length, Nat.add_comm]

end ShortString

end Socks6
