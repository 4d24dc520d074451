/-
# Socks6.Bytes — byte strings and the numbers they spell

Bytes are lists: a list is what a proof can take apart.  Numbers travel in
network order, so one pair of functions serves every width: `bigEndian w n`
writes the low `w` base-256 digits of `n`, `value` reads any string of digits
back.  The two are inverse on numbers that fit.
-/
namespace Socks6

abbrev Bytes := List UInt8

/-- A byte string of the length `n`. -/
abbrev Octets (n : Nat) := { bs : Bytes // bs.length = n }

namespace Bytes

/-- The low `width` base-256 digits of `n`, the most significant first. -/
def bigEndian : (width n : Nat) → Bytes
  | 0, _ => []
  | w + 1, n => bigEndian w (n / 256) ++ [UInt8.ofNat n]

/-- The number that a string of base-256 digits spells. -/
def value (bs : Bytes) : Nat :=
  bs.foldl (fun acc b => acc * 256 + b.toNat) 0

@[simp] theorem length_bigEndian (w n : Nat) : (bigEndian w n).length = w := by
  induction w generalizing n with
  | zero => rfl
  | succ w ih => simp [bigEndian, ih]

@[simp] theorem value_nil : value [] = 0 := rfl

theorem value_concat (bs : Bytes) (b : UInt8) : value (bs ++ [b]) = value bs * 256 + b.toNat := by
  simp [value, List.foldl_append]

/-- The two bytes of a 16-bit number. -/
def ofUInt16 (n : UInt16) : Bytes := bigEndian 2 n.toNat

/-- The four bytes of a 32-bit number. -/
def ofUInt32 (n : UInt32) : Bytes := bigEndian 4 n.toNat

end Bytes

end Socks6
