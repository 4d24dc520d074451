/-
# Socks6.Version — the version that opens every envelope
-/
import Socks6.Cursor

namespace Socks6

structure Version where
  major : UInt8
  minor : UInt8
  deriving DecidableEq, Repr

namespace Version

/-- The version of this library. -/
def current : Version := ⟨6, 1⟩

def size : Nat := 2

def text (v : Version) : String := s!"{v.major.toNat}.{v.minor.toNat}"

def write : CursorM Unit := CursorM.writeAll [[current.major], [current.minor]]

/-- Reads the version; no other is accepted. -/
def read : CursorM Version := do
  let pair ← CursorM.read 2
  let major := pair.val.headD 0
  let minor := pair.val.getLastD 0
  if major = current.major ∧ minor = current.minor then return current
  else throw (.badVersion major minor (.envelope current.major current.minor))

end Version

end Socks6
