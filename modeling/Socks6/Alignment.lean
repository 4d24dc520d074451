/-
# Socks6.Alignment — records end on multiples of four bytes

An interpreted record is filled up with zeros to the next multiple of four
bytes.  A part of `natural` bytes that starts `head` bytes behind such a boundary
leaves a gap of `Alignment.gap natural head`.
-/
import Socks6.Cursor

namespace Socks6.Alignment

/-- Records start and end on multiples of this many bytes. -/
def unit : Nat := 4

/-- How many bytes are missing to the next boundary. -/
def gap (natural head : Nat) : Nat := (unit - (natural + head) % unit) % unit

/-- The size of a part together with its gap. -/
def padded (natural head : Nat) : Nat := natural + gap natural head

/-- Fills the gap of a part with zeros. -/
def write (natural head : Nat) : CursorM Unit := CursorM.writeZeros (gap natural head)

/-- Passes over the gap of a part, whatever it holds. -/
def skip (natural head : Nat) : CursorM Unit := CursorM.skip (gap natural head)

theorem gap_lt (natural head : Nat) : gap natural head < unit := by
  unfold gap unit; omega

theorem padded_aligned (natural head : Nat) : (padded natural head + head) % unit = 0 := by
  unfold padded gap unit; omega

end Socks6.Alignment
