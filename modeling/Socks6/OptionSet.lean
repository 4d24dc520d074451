/-
# Socks6.OptionSet — the options of one envelope

A set of options belongs to a kind of envelope and holds what its options say,
group by group.  Applying an option either gives a new set or an error, and then
the old set is still there.  `records` lists the options that say exactly what a
set says; they are what is written.
-/
import Socks6.OptionRecord

namespace Socks6

/-- What the options of an envelope say. -/
structure OptionSet where
  mode : Mode
  stack : StackGroup
  session : SessionGroup
  tokens : TokenGroup
  methods : MethodGroup
  authData : AuthDataGroup
  /-- Frames that are passed on, in the order they came. -/
  raw : List Frame
  deriving DecidableEq, Repr

namespace OptionSet

/-- The set that says nothing. -/
def empty (mode : Mode) : OptionSet := ⟨mode, .empty, .empty, .empty, .empty, .empty, []⟩

/-- The option may travel in the envelope of this set. -/
def allows (s : OptionSet) (o : OptionRecord) : Bool := o.allowedIn s.mode

/-- A frame is opaque in this set: reading it back would not interpret it. -/
def checkOpaque (s : OptionSet) (frame : Frame) : Except Error Unit :=
  match frame.interpret s.mode with
  | .ok (.raw _) => .ok ()
  | .ok o => .error (.invalidField "raw option" (.interpreted frame.kind o.name))
  | .error fault => .error (.invalidField "raw option" (.malformed frame.kind fault.message))

/-- The set with one more option. -/
def apply (s : OptionSet) (o : OptionRecord) : Except Error OptionSet := do
  unless s.allows o do throw (.notAllowed o.name s.mode)
  match o with
  | .stack o => return { s with stack := ← s.stack.merge o }
  | .session o => return { s with session := ← s.session.merge o }
  | .token o => return { s with tokens := ← s.tokens.merge o }
  | .advertisement a => return { s with methods := ← s.methods.merge a }
  | .authData d => return { s with authData := ← s.authData.merge d }
  | .raw frame =>
    s.checkOpaque frame
    return { s with raw := s.raw ++ [frame] }

/-- The set with a method selected; only an authentication reply selects one. -/
def select (s : OptionSet) (m : AuthMethod) : Except Error OptionSet := do
  unless s.mode = .authReply do throw (.notAllowed "selected auth method" s.mode)
  return { s with methods := ← s.methods.select m }

/-- The options that say what the set says, in the order they are written. -/
def records (s : OptionSet) : List OptionRecord :=
  s.stack.settings.map .stack ++ s.tokens.options.map .token ++
    s.methods.advertisement.toList.map .advertisement ++ s.authData.data.toList.map .authData ++
    s.session.signals.map .session ++ s.raw.map .raw

/-- No option is written for the set. -/
def isEmpty (s : OptionSet) : Bool := s.records.isEmpty

/-- How many bytes the records take. -/
def recordsSize (s : OptionSet) : Nat := s.records.foldr (fun o total => o.size + total) 0

/-- How many bytes the set takes: a length and the records. -/
def size (s : OptionSet) : Nat := 2 + s.recordsSize

/-- Writes the set: the records behind their length, which is filled in last. -/
def write (s : OptionSet) : CursorM Unit := do
  let total := s.recordsSize
  if Frame.maxBlock < total then
    throw (.invalidField "options length" (.blockTooLong total Frame.maxBlock))
  let position ← CursorM.reserve
  let start ← CursorM.offset
  s.records.forM OptionRecord.write
  let written := (← CursorM.offset) - start
  unless written = total do
    throw (.unspecified s!"option block wrote {written} bytes, expected {total}")
  CursorM.patch position (UInt16.ofNat total)

def encode (s : OptionSet) : Except Error Bytes := s.write.filling s.size

end OptionSet

end Socks6
