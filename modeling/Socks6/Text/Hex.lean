/-
# Socks6.Text.Hex — lowercase hexadecimal

Byte strings and tags appear in messages and in debug text as hexadecimal
digits, always lowercase and always padded to their full width.
-/
import Socks6.Bytes

namespace Socks6.Hex

/-- One hexadecimal digit; larger numbers count modulo 16. -/
def digit (n : Nat) : Char :=
  "0123456789abcdef".toList.getD (n % 16) '0'

/-- The low `width` hexadecimal digits of `n`, the most significant first. -/
def digits : (width n : Nat) → List Char
  | 0, _ => []
  | w + 1, n => digits w (n / 16) ++ [digit n]

/-- Two digits for every byte, nothing between them. -/
def ofBytes (bs : Bytes) : String :=
  String.ofList (bs.flatMap fun b => digits 2 b.toNat)

/-- A byte as `0x` and two digits. -/
def tag (b : UInt8) : String :=
  "0x" ++ String.ofList (digits 2 b.toNat)

/-- A 16-bit number as `0x` and four digits. -/
def word (n : UInt16) : String :=
  "0x" ++ String.ofList (digits 4 n.toNat)

@[simp] theorem length_digits (w n : Nat) : (digits w n).length = w := by
  induction w generalizing n with
  | zero => rfl
  | succ w ih => simp [digits, ih]

end Socks6.Hex
