/-
# Socks6.Cursor.Indexed — a cursor as a position in its buffer

A `Cursor` is a buffer cut in two, so no position lies outside the buffer and no
access can leave it.  A machine has the buffer in one piece and the position as a
number of 64 bits, and computes where each access begins and ends.  Then more can go
wrong than that bytes are missing: a sum of two positions may be none any more, and a
part of the buffer may be used that is not there.  This is a fault, of which no caller
is told.  Here each operation of a cursor is given as such a computation, in the order
in which positions are compared, added and used.

`CursorOp` lists the operations, each with both of its meanings.
-/
import Mathlib.Algebra.Group.Nat.Defs
import Socks6.Cursor

namespace Socks6

/-! ## Positions -/

/-- A position in memory, or a number of bytes there. -/
abbrev Index := UInt64

/-- Bytes in memory, where nothing takes more than half of the positions. -/
abbrev Buffer := { bs : Bytes // bs.length < 2 ^ 63 }

def Buffer.size (b : Buffer) : Index := UInt64.ofNat b.val.length

/-- What stops a computation with positions. -/
inductive Fault where
  /-- A sum or a difference of positions is none. -/
  | overflow
  /-- A part of a buffer begins behind its end, or ends behind that of the buffer. -/
  | outOfBounds
  /-- Bytes are copied to a place for more or for fewer. -/
  | lengthMismatch
  deriving DecidableEq, Repr

namespace Index

def sum (a b : Index) : Except Fault Index :=
  if a.toNat + b.toNat < 2 ^ 64 then .ok (a + b) else .error .overflow

/-- The difference of two positions. -/
def difference (a b : Index) : Except Fault Index :=
  if b ≤ a then .ok (a - b) else .error .overflow

/-- The sum of two positions, or the last one there is. -/
def sumSaturating (a b : Index) : Index :=
  if a.toNat + b.toNat < 2 ^ 64 then a + b else UInt64.ofNat (2 ^ 64 - 1)

/-- The difference of two positions, or nothing. -/
def differenceSaturating (a b : Index) : Index := if b ≤ a then a - b else 0

end Index

/-- A buffer, and a position in it. -/
structure IndexedCursor where
  buffer : Bytes
  offset : Index
  deriving DecidableEq, Repr

namespace IndexedCursor

def ofBytes (buffer : Bytes) : IndexedCursor := ⟨buffer, 0⟩

def length (c : IndexedCursor) : Index := UInt64.ofNat c.buffer.length

def remaining (c : IndexedCursor) : Except Fault Index := Index.difference c.length c.offset

/-- The bytes from `start` on that stand before `stop`. -/
def between (c : IndexedCursor) (start stop : Nat) : Bytes :=
  (c.buffer.drop start).take (stop - start)

/-- The part of the buffer from `start` on that ends before `stop`. -/
def slice (c : IndexedCursor) (start stop : Index) : Except Fault Bytes :=
  if start ≤ stop ∧ stop ≤ c.length then .ok (c.between start.toNat stop.toNat)
  else .error .outOfBounds

/-- Copies `bytes` to a part of the buffer. -/
def replace (c : IndexedCursor) (start stop : Index) (bytes : Bytes) :
    Except Fault IndexedCursor := do
  let part ← c.slice start stop
  if part.length = bytes.length then
    return { c with buffer := c.buffer.take start.toNat ++ bytes ++ c.buffer.drop stop.toNat }
  else
    throw .lengthMismatch

end IndexedCursor

/-! ## Actions -/

/-- An action on a cursor with a position.  It can fail as every action on a cursor, and
it can fault. -/
abbrev IndexedM := ExceptT Error (StateT IndexedCursor (Except Fault))

namespace IndexedM

variable {α β : Type}

/-- What an action makes of a cursor: its result, and the cursor afterwards. -/
def on (act : IndexedM α) (c : IndexedCursor) : Except Fault (Except Error α × IndexedCursor) :=
  StateT.run (ExceptT.run act) c

/-- Computes something. -/
def look (f : IndexedCursor → Except Fault α) : IndexedM α := fun c => do
  return (.ok (← f c), c)

/-- Computes what the cursor becomes. -/
def change (f : IndexedCursor → Except Fault IndexedCursor) : IndexedM Unit := fun c => do
  return (.ok (), ← f c)

@[simp] theorem on_look (f : IndexedCursor → Except Fault α) (c : IndexedCursor) :
    (look f).on c = (f c).map fun a => (.ok a, c) := by
  cases h : f c <;> simp [look, on, h, ExceptT.run, StateT.run] <;> rfl

@[simp] theorem on_change (f : IndexedCursor → Except Fault IndexedCursor) (c : IndexedCursor) :
    (change f).on c = (f c).map fun c' => (.ok (), c') := by
  cases h : f c <;> simp [change, on, h, ExceptT.run, StateT.run] <;> rfl

theorem on_bind (x : IndexedM α) (f : α → IndexedM β) (c : IndexedCursor) :
    (x >>= f).on c =
      match x.on c with
      | .ok (.ok a, c') => (f a).on c'
      | .ok (.error e, c') => .ok (.error e, c')
      | .error fault => .error fault := by
  simp only [on, bind, ExceptT.run, ExceptT.bind, ExceptT.mk, StateT.run, StateT.bind, Except.bind]
  rcases x c with _ | ⟨_ | _, _⟩ <;> rfl

end IndexedM

/-! ## Where the cursor stands -/

namespace IndexedM

def offset : IndexedM Index := look fun c => .ok c.offset

/-- Moves the position on. -/
def forward (n : Index) : IndexedM Unit := change fun c => do
  return { c with offset := ← Index.sum c.offset n }

/-- Fails if fewer than `n` bytes follow. -/
def check (access : Access) (n : Index) : IndexedM Unit := do
  let remaining ← look IndexedCursor.remaining
  if remaining < n then
    throw (.truncated n.toNat remaining.toNat (.cursor access (← offset).toNat))

/-- The `n` bytes from `start` on. -/
def slice (start n : Index) : IndexedM Bytes := look fun c => do
  c.slice start (← Index.sum start n)

/-- Copies `bytes` to the `n` bytes from `start` on. -/
def replace (start n : Index) (bytes : Bytes) : IndexedM Unit := change fun c => do
  c.replace start (← Index.sum start n) bytes

/-! ## Reading -/

def peek (n : Index) : IndexedM Bytes := do
  check .peek n
  slice (← offset) n

def read (n : Index) : IndexedM Bytes := do
  check .read n
  let start ← offset
  forward n
  slice start n

def skip (n : Index) : IndexedM Unit := do
  check .skip n
  forward n

/-- A cursor of its own over the next `n` bytes. -/
def take (n : Index) : IndexedM IndexedCursor := return .ofBytes (← read n)

def readRest : IndexedM Bytes := do
  let start ← offset
  change fun c => .ok { c with offset := c.length }
  look fun c => c.slice start c.length

/-- The number that the first `n` bytes spell. -/
def number (n : Nat) (bytes : Bytes) : IndexedM Nat := look fun _ =>
  if n ≤ bytes.length then .ok (Bytes.value (bytes.take n)) else .error .outOfBounds

/-- The next `n` bytes, as a number. -/
def readNumber (n : Index) : IndexedM Nat := do number n.toNat (← read n)

def readU8 : IndexedM UInt8 := return UInt8.ofNat (← readNumber 1)

def readU16 : IndexedM UInt16 := return UInt16.ofNat (← readNumber 2)

def readU32 : IndexedM UInt32 := return UInt32.ofNat (← readNumber 4)

/-- The bytes, copied to a place for `n` of them. -/
def copied (n : Nat) (bytes : Bytes) : IndexedM (Octets n) := look fun _ =>
  if h : bytes.length = n then .ok ⟨bytes, h⟩ else .error .lengthMismatch

/-- The next `n` bytes, in a place of their own. -/
def readArray (n : Index) : IndexedM (Octets n.toNat) := do copied n.toNat (← read n)

/-! ## Writing -/

def write (bytes : Buffer) : IndexedM Unit := do
  check .write bytes.size
  replace (← offset) bytes.size bytes.val
  forward bytes.size

def writeU8 (n : UInt8) : IndexedM Unit := write ⟨[n], by simp⟩

def writeU16 (n : UInt16) : IndexedM Unit :=
  write ⟨Bytes.ofUInt16 n, by simp [Bytes.ofUInt16]⟩

def writeU32 (n : UInt32) : IndexedM Unit :=
  write ⟨Bytes.ofUInt32 n, by simp [Bytes.ofUInt32]⟩

def writeZeros (n : Index) : IndexedM Unit := do
  check .write n
  replace (← offset) n (List.replicate n.toNat 0)
  forward n

/-- Leaves two zero bytes for a number that is not known yet, and says where. -/
def reserve : IndexedM Index := do
  let position ← offset
  writeU16 0
  return position

/-- Sets the two bytes at `position`, which must have been passed. -/
def patch (position : Index) (n : UInt16) : IndexedM Unit := do
  let offset ← offset
  if offset < Index.sumSaturating position 2 then
    throw (.truncated 2 (Index.differenceSaturating offset position).toNat (.patch position.toNat))
  replace position 2 (Bytes.ofUInt16 n)

end IndexedM

/-! ## The operations -/

inductive CursorOp where
  | peek (n : Index)
  | read (n : Index)
  | skip (n : Index)
  | take (n : Index)
  | readRest
  | readU8
  | readU16
  | readU32
  | readArray (n : Index)
  | write (bytes : Buffer)
  | writeU8 (n : UInt8)
  | writeU16 (n : UInt16)
  | writeU32 (n : UInt32)
  | writeZeros (n : Index)
  | reserve
  | patch (position : Index) (n : UInt16)
  deriving DecidableEq

namespace CursorOp

/-- What an operation answers. -/
inductive Answer where
  | bytes (bs : Bytes)
  | window (w : IndexedCursor)
  | u8 (n : UInt8)
  | u16 (n : UInt16)
  | u32 (n : UInt32)
  | position (p : Nat)
  | done
  deriving DecidableEq, Repr

/-- The bytes that an answer consists of. -/
def Answer.spelled : Answer → Bytes
  | .bytes bs => bs
  | .window w => w.buffer
  | .u8 n => [n]
  | .u16 n => Bytes.ofUInt16 n
  | .u32 n => Bytes.ofUInt32 n
  | .position _ | .done => []

/-- The operation on a buffer that is cut in two. -/
def act : CursorOp → CursorM Answer
  | .peek n => return .bytes (← CursorM.peek n.toNat).val
  | .read n | .readArray n => return .bytes (← CursorM.read n.toNat).val
  | .skip n => do CursorM.skip n.toNat; return .done
  | .take n => return .window (.ofBytes (← CursorM.read n.toNat).val)
  | .readRest => return .bytes (← CursorM.readRest)
  | .readU8 => return .u8 (← CursorM.readU8)
  | .readU16 => return .u16 (← CursorM.readU16)
  | .readU32 => return .u32 (← CursorM.readU32)
  | .write bytes => do CursorM.write bytes.val; return .done
  | .writeU8 n => do CursorM.writeU8 n; return .done
  | .writeU16 n => do CursorM.writeU16 n; return .done
  | .writeU32 n => do CursorM.writeU32 n; return .done
  | .writeZeros n => do CursorM.writeZeros n.toNat; return .done
  | .reserve => return .position (← CursorM.reserve)
  | .patch position n => do CursorM.patch position.toNat n; return .done

/-- The operation on a buffer in one piece. -/
def step : CursorOp → IndexedM Answer
  | .peek n => return .bytes (← IndexedM.peek n)
  | .read n => return .bytes (← IndexedM.read n)
  | .skip n => do IndexedM.skip n; return .done
  | .take n => return .window (← IndexedM.take n)
  | .readRest => return .bytes (← IndexedM.readRest)
  | .readU8 => return .u8 (← IndexedM.readU8)
  | .readU16 => return .u16 (← IndexedM.readU16)
  | .readU32 => return .u32 (← IndexedM.readU32)
  | .readArray n => return .bytes (← IndexedM.readArray n).val
  | .write bytes => do IndexedM.write bytes; return .done
  | .writeU8 n => do IndexedM.writeU8 n; return .done
  | .writeU16 n => do IndexedM.writeU16 n; return .done
  | .writeU32 n => do IndexedM.writeU32 n; return .done
  | .writeZeros n => do IndexedM.writeZeros n; return .done
  | .reserve => return .position (← IndexedM.reserve).toNat
  | .patch position n => do IndexedM.patch position n; return .done

/-- The cursor after a run of operations, of which some may have failed. -/
def after (ops : List CursorOp) (c : Cursor) : Cursor :=
  ops.foldl (fun c op => (op.act.on c).2) c

/-- The same on a buffer in one piece, unless one of them faults. -/
def run : List CursorOp → IndexedCursor → Except Fault IndexedCursor
  | [], c => .ok c
  | op :: ops, c => do
    let (_, c') ← op.step.on c
    run ops c'

end CursorOp

end Socks6
