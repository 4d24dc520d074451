/-
# Socks6.Slot — fields that are settable once

A slot is empty or holds a value.  Offering a value to an empty slot fills it;
offering the held value again changes nothing; any other value is refused, and
the refusal shows both values.
-/
import Socks6.Error

namespace Socks6

/-- Values that a refusal can show. -/
class Shown (α : Type) where
  /-- The text of a value in a refusal. -/
  shown : α → String

instance : Shown Bool where
  shown b := if b then "true" else "false"

instance : Shown UInt8 where
  shown n := toString n.toNat

instance : Shown UInt16 where
  shown n := toString n.toNat

instance : Shown UInt32 where
  shown n := toString n.toNat

namespace Slot

variable {α : Type} [DecidableEq α] [Shown α]

/-- The value may be put into the slot. -/
def check (field : String) (slot : Option α) (value : α) : Except Error Unit :=
  match slot with
  | some held =>
    if held = value then .ok ()
    else .error (.conflict field (Shown.shown held) (Shown.shown value))
  | none => .ok ()

/-- The slot with the value in it. -/
def merge (field : String) (slot : Option α) (value : α) : Except Error (Option α) := do
  check field slot value
  return some value

end Slot

end Socks6
