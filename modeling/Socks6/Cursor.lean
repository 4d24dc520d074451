/-
# Socks6.Cursor — one pass over a buffer

A cursor is a buffer cut in two: the bytes it has passed and the bytes it has
not.  The offset is how many lie behind, so no cursor stands outside its buffer
and every access is a cut of the second part.

An action on a cursor either gives a value or fails, and in both cases leaves a
cursor: what a failed composite has consumed, or written, stays so.  A single
access is all or nothing.
-/
import Socks6.Error

namespace Socks6

/-- A buffer, cut at the position of the cursor. -/
structure Cursor where
  /-- The bytes before the position. -/
  passed : Array UInt8
  /-- The bytes from the position on. -/
  rest : Bytes
  deriving DecidableEq, Repr

namespace Cursor

/-- A cursor at the start of a buffer. -/
def ofBytes (buffer : Bytes) : Cursor := ⟨#[], buffer⟩

def buffer (c : Cursor) : Bytes := c.passed.toList ++ c.rest

def offset (c : Cursor) : Nat := c.passed.size

/-- How many bytes follow the position. -/
def remaining (c : Cursor) : Nat := c.rest.length

def length (c : Cursor) : Nat := c.offset + c.remaining

/-- No byte follows the position. -/
def atEnd (c : Cursor) : Bool := c.rest.isEmpty

/-- The next `n` bytes, if so many are left.  No byte behind them is looked at. -/
def next? (c : Cursor) (n : Nat) : Option (Octets n) :=
  if h : (c.rest.take n).length = n then some ⟨c.rest.take n, h⟩ else none

/-- The error of asking for `n` bytes where fewer remain. -/
def shortage (c : Cursor) (access : Access) (n : Nat) : Error :=
  .truncated n c.remaining (.cursor access c.offset)

/-- The cursor `n` bytes further on. -/
def advance (c : Cursor) (n : Nat) : Cursor :=
  ⟨c.passed ++ c.rest.take n, c.rest.drop n⟩

/-- The cursor behind `bytes`, which take the place of as many bytes of the buffer. -/
def overwrite (c : Cursor) (bytes : Bytes) : Cursor :=
  ⟨c.passed ++ bytes, c.rest.drop bytes.length⟩

@[simp] theorem buffer_ofBytes (b : Bytes) : (ofBytes b).buffer = b := by
  simp [ofBytes, buffer]

@[simp] theorem offset_ofBytes (b : Bytes) : (ofBytes b).offset = 0 := rfl

@[simp] theorem length_buffer (c : Cursor) : c.buffer.length = c.length := by
  simp [buffer, length, offset, remaining]

theorem next?_eq_none_iff {c : Cursor} {n : Nat} : c.next? n = none ↔ c.remaining < n := by
  simp only [next?, remaining, List.length_take]
  split <;> simp <;> omega

theorem next?_of_le {c : Cursor} {n : Nat} (room : n ≤ c.remaining) :
    c.next? n = some ⟨c.rest.take n, List.length_take_of_le room⟩ :=
  dif_pos _

theorem next?_eq_some_iff {c : Cursor} {n : Nat} {bs : Octets n} :
    c.next? n = some bs ↔ ∃ behind, c.rest = bs.val ++ behind := by
  constructor
  · intro h
    simp only [next?, Option.dite_none_right_eq_some] at h
    obtain ⟨_, h⟩ := h
    cases h
    exact ⟨c.rest.drop n, (List.take_append_drop n c.rest).symm⟩
  · rintro ⟨behind, h⟩
    have start : c.rest.take n = bs.val := by rw [h, List.take_left' bs.property]
    simp only [next?, start, bs.property, dite_true]

@[simp] theorem buffer_advance (c : Cursor) (n : Nat) : (c.advance n).buffer = c.buffer := by
  simp [advance, buffer]

end Cursor

abbrev CursorM := ExceptT Error (StateM Cursor)

namespace CursorM

variable {α β : Type}

/-- What an action makes of a cursor: its result, and the cursor afterwards. -/
def on (act : CursorM α) (c : Cursor) : Except Error α × Cursor :=
  StateT.run (ExceptT.run act) c

/-- What an action makes of a buffer, from its start. -/
def onBytes (act : CursorM α) (buffer : Bytes) : Except Error α :=
  (act.on (.ofBytes buffer)).1

@[simp] theorem on_pure (a : α) (c : Cursor) : (pure a : CursorM α).on c = (.ok a, c) := rfl

@[simp] theorem on_throw (e : Error) (c : Cursor) :
    (throw e : CursorM α).on c = (.error e, c) := rfl

/-- A sequence stops where its first part fails. -/
theorem on_bind (x : CursorM α) (f : α → CursorM β) (c : Cursor) :
    (x >>= f).on c =
      match x.on c with
      | (.ok a, c') => (f a).on c'
      | (.error e, c') => (.error e, c') := by
  simp only [on, bind, ExceptT.run, ExceptT.bind, ExceptT.mk, StateT.run, StateT.bind]
  rcases x c with ⟨_ | _, _⟩ <;> rfl

/-- A result that is already there. -/
def ofExcept : Except Error α → CursorM α
  | .ok a => pure a
  | .error e => throw e

/-! ## Where the cursor stands -/

def offset : CursorM Nat := fun c => (.ok c.offset, c)

def length : CursorM Nat := fun c => (.ok c.length, c)

/-- No byte follows the position. -/
def atEnd : CursorM Bool := fun c => (.ok c.atEnd, c)

/-! ## Reading -/

/-- The next `n` bytes, which stay ahead. -/
def peek (n : Nat) : CursorM (Octets n) := fun c =>
  match c.next? n with
  | some bytes => (.ok bytes, c)
  | none => (.error (c.shortage .peek n), c)

def read (n : Nat) : CursorM (Octets n) := fun c =>
  match c.next? n with
  | some bytes => (.ok bytes, c.advance n)
  | none => (.error (c.shortage .read n), c)

/-- Passes over the next `n` bytes. -/
def skip (n : Nat) : CursorM Unit := fun c =>
  match c.next? n with
  | some _ => (.ok (), c.advance n)
  | none => (.error (c.shortage .skip n), c)

/-- All bytes that are left. -/
def readRest : CursorM Bytes := fun c => (.ok c.rest, c.advance c.remaining)

def readU8 : CursorM UInt8 := return UInt8.ofNat (← read 1).val.value

def readU16 : CursorM UInt16 := return UInt16.ofNat (← read 2).val.value

def readU32 : CursorM UInt32 := return UInt32.ofNat (← read 4).val.value

/-- The next byte, as a value of a registry. -/
def readCoded (α : Type) [Coded α] (field : String) : CursorM α := do
  let byte ← readU8
  match Coded.ofCode? α byte.toNat with
  | some a => return a
  | none => throw (.invalidField field (.unknownValue byte.toNat))

/-! ## Writing -/

/-- Writes `bytes`, if there is room for all of them. -/
def write (bytes : Bytes) : CursorM Unit := fun c =>
  match c.next? bytes.length with
  | some _ => (.ok (), c.overwrite bytes)
  | none => (.error (c.shortage .write bytes.length), c)

def writeU8 (n : UInt8) : CursorM Unit := write [n]

def writeU16 (n : UInt16) : CursorM Unit := write (Bytes.ofUInt16 n)

def writeU32 (n : UInt32) : CursorM Unit := write (Bytes.ofUInt32 n)

def writeZeros (n : Nat) : CursorM Unit := fun c =>
  match c.next? n with
  | some _ => (.ok (), c.overwrite (List.replicate n 0))
  | none => (.error (c.shortage .write n), c)

/-- Writes pieces one after the other, each of them whole or not at all. -/
def writeAll (pieces : List Bytes) : CursorM Unit := pieces.forM write

/-- The bytes that an action writes into a zeroed buffer of the given size. -/
def filling (act : CursorM Unit) (size : Nat) : Except Error Bytes :=
  match act.on (.ofBytes (List.replicate size 0)) with
  | (.ok (), c) => .ok c.buffer
  | (.error e, _) => .error e

/-- Leaves two zero bytes for a number that is not known yet, and says where. -/
def reserve : CursorM Nat := do
  let position ← offset
  writeU16 0
  return position

/-- Sets the two bytes at `position`, which must have been passed. -/
def patch (position : Nat) (n : UInt16) : CursorM Unit := fun c =>
  if position + 2 ≤ c.offset then
    let passed := c.passed.setIfInBounds position (UInt8.ofNat (n.toNat / 256))
    (.ok (), ⟨passed.setIfInBounds (position + 1) (UInt8.ofNat n.toNat), c.rest⟩)
  else (.error (.truncated 2 (c.offset - position) (.patch position)), c)

end CursorM

end Socks6
