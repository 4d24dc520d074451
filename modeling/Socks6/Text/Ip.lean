/-
# Socks6.Text.Ip — the text of network addresses

Version 4 addresses are four decimal numbers with points between them.  Version
6 addresses are eight groups of hexadecimal digits without leading zeros; the
longest run of at least two zero groups, the first of them if there are several,
is written as `::`.  An address that embeds one of version 4 ends in its dotted
form.
-/
import Socks6.Bytes

namespace Socks6.Ip

/-- Decimal numbers with points between them. -/
def dotted (bs : Bytes) : String :=
  ".".intercalate (bs.map fun b => toString b.toNat)

/-- The 16-bit groups of a byte string. -/
def groups : Bytes → List Nat
  | high :: low :: rest => (high.toNat * 256 + low.toNat) :: groups rest
  | _ => []

/-- Where the longest run of zeros starts, and its length. -/
def zeroRun (gs : List Nat) : Nat × Nat :=
  (List.range gs.length).foldl (fun best start =>
    let length := ((gs.drop start).takeWhile (· == 0)).length
    if best.2 < length then (start, length) else best) (0, 0)

/-- Groups with colons between them. -/
def joined (gs : List Nat) : String :=
  ":".intercalate (gs.map fun g => String.ofList (Nat.toDigits 16 g))

/-- Groups with the longest run of zeros left out. -/
def compressed (gs : List Nat) : String :=
  let (start, length) := zeroRun gs
  if length < 2 then joined gs
  else joined (gs.take start) ++ "::" ++ joined (gs.drop (start + length))

def text6 (octets : Bytes) : String :=
  match groups octets with
  | [0, 0, 0, 0, 0, 0xffff, _, _] => "::ffff:" ++ dotted (octets.drop 12)
  | gs => compressed gs

end Socks6.Ip
