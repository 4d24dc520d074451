/-
# Socks6.Text.Utf8 — text out of bytes that may not be text

A name on the wire is a byte string.  Shown to a reader it becomes text: each
well-formed sequence is its character, and each maximal ill-formed part — the
longest run of bytes that begins a sequence but does not finish one, or a single
byte that begins none — becomes one replacement character.
-/
import Socks6.Bytes

namespace Socks6.Utf8

/-- What a leading byte announces: how many bytes continue the sequence, the
range that the first of them lies in, and the leading bits of the character. -/
structure Lead where
  count : Nat
  low : UInt8
  high : UInt8
  bits : Nat

/-- The byte that leads a sequence of two, three or four bytes.  The narrowed
ranges keep out overlong forms, surrogates and numbers above the last character. -/
def lead? (b : UInt8) : Option Lead :=
  if b < 0xC2 then none
  else if b < 0xE0 then some ⟨1, 0x80, 0xBF, b.toNat - 0xC0⟩
  else if b = 0xE0 then some ⟨2, 0xA0, 0xBF, 0⟩
  else if b = 0xED then some ⟨2, 0x80, 0x9F, 0xD⟩
  else if b < 0xF0 then some ⟨2, 0x80, 0xBF, b.toNat - 0xE0⟩
  else if b = 0xF0 then some ⟨3, 0x90, 0xBF, 0⟩
  else if b < 0xF4 then some ⟨3, 0x80, 0xBF, b.toNat - 0xF0⟩
  else if b = 0xF4 then some ⟨3, 0x80, 0x8F, 4⟩
  else none

/-- How many bytes of `bs` continue a sequence, and the character's number if
the sequence is complete. -/
def follow : (count : Nat) → (low high : UInt8) → (bits : Nat) → (bs : Bytes) → Nat × Option Nat
  | 0, _, _, bits, _ => (0, some bits)
  | _ + 1, _, _, _, [] => (0, none)
  | n + 1, low, high, bits, b :: bs =>
    if low ≤ b ∧ b ≤ high then
      let (taken, number?) := follow n 0x80 0xBF (bits * 64 + b.toNat % 64) bs
      (taken + 1, number?)
    else (0, none)

/-- The characters of a byte string, with `none` for each ill-formed part. -/
def scan : Bytes → List (Option Char)
  | [] => []
  | b :: bs =>
    if b < 0x80 then some (Char.ofNat b.toNat) :: scan bs
    else
      match lead? b with
      | none => none :: scan bs
      | some l =>
        let (taken, number?) := follow l.count l.low l.high l.bits bs
        number?.map Char.ofNat :: scan (bs.drop taken)
  termination_by bs => bs.length

/-- The text of a well-formed byte string. -/
def text? (bs : Bytes) : Option String :=
  ((scan bs).mapM id).map String.ofList

/-- The text of any byte string, ill-formed parts replaced. -/
def lossy (bs : Bytes) : String :=
  String.ofList ((scan bs).map (·.getD '\uFFFD'))

def bytes (text : String) : Bytes := text.toUTF8.toList

end Socks6.Utf8
