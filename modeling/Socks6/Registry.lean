/-
# Socks6.Registry — named values and their code points

Most fields of the protocol hold a value from a short closed list.  Such a list
is written once, as a table: the members in order, the name of each, and the
number that stands for it on the wire.  Everything else — reading a code,
reading a name — follows from the table.  A table is complete and its codes are
distinct bytes; both are checked where it is written.
-/
namespace Socks6

/-- A closed list of values, each with a name. -/
class Named (α : Type) where
  /-- Every value, in the order of the registry. -/
  members : List α
  /-- The name of a value. -/
  name : α → String

/-- A closed list of values, each with a name and a code point. -/
class Coded (α : Type) extends Named α where
  /-- The number that stands for a value on the wire. -/
  code : α → Nat
  /-- Every value is listed, and no two share a code. -/
  find?_code : ∀ a, members.find? (fun b => code b == code a) = some a := by
    intro a; cases a <;> rfl
  /-- Every code fits into one byte. -/
  code_lt : ∀ a, code a < 256 := by intro a; cases a <;> decide

/-- The value of a name, if it has one. -/
def Named.ofName? (α : Type) [Named α] (text : String) : Option α :=
  (Named.members : List α).find? fun a => Named.name a == text

namespace Coded

variable {α : Type} [Coded α]

/-- The value of a code point, if it has one. -/
def ofCode? (α : Type) [Coded α] (n : Nat) : Option α :=
  (Named.members : List α).find? fun a => code a == n

/-- A code point as one byte of the wire. -/
def byte (a : α) : UInt8 := UInt8.ofNat (code a)

theorem code_of_ofCode? {n : Nat} {a : α} (h : ofCode? α n = some a) : code a = n := by
  simpa using List.find?_some h

theorem ofCode?_byte (a : α) : ofCode? α (byte a).toNat = some a := by
  have fits : (byte a).toNat = code a := by
    simp [byte, Nat.mod_eq_of_lt (code_lt a)]
  rw [fits]
  exact find?_code a

end Coded

end Socks6
