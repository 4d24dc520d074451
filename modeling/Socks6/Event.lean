/-
# Socks6.Event — what is logged while an envelope is read

Damage inside an option block is no error of the envelope: the record is dropped,
or the rest of the block is, and an event says so.  The log is a value, the list
of the events in the order they arose.
-/
import Socks6.Head

namespace Socks6

/-- How much an event matters. -/
inductive Severity where
  | trace
  | debug
  | warn
  deriving DecidableEq, Repr

instance : Named Severity where
  members := [.trace, .debug, .warn]
  name
    | .trace => "trace"
    | .debug => "debug"
    | .warn => "warn"

/-- An event of reading.  Offsets count from the start of the block. -/
inductive Event where
  /-- A record of an interpreted kind is broken, and dropped. -/
  | malformed (kind : UInt16) (offset : Nat) (fault : Error)
  /-- A record is not recognized, and dropped by policy. -/
  | unrecognized (kind : UInt16) (offset : Nat)
  /-- An option is refused by the set, and dropped. -/
  | refused (name : String) (offset : Nat) (fault : Error)
  /-- What follows is no record; the rest of the block is abandoned. -/
  | corrupt (offset : Nat) (fault : Error)
  /-- The policy's number of records is used up; the rest of the block is abandoned. -/
  | limitReached (limit left : Nat)
  /-- An envelope was read, and the cursor stands at `offset`. -/
  | decoded (head : Head) (offset : Nat)
  deriving DecidableEq, Repr

namespace Event

def severity : Event → Severity
  | .malformed .. | .unrecognized .. | .refused .. => .debug
  | .corrupt .. | .limitReached .. => .warn
  | .decoded .. => .trace

/-- The line of the log. -/
def text : Event → String
  | .malformed kind offset fault =>
    s!"Dropping malformed option kind {kind.toNat} at offset {offset}: {fault.message}"
  | .unrecognized kind offset =>
    s!"Dropping unrecognized option kind {kind.toNat} at offset {offset}"
  | .refused name offset fault =>
    s!"Dropping rejected {name} option at offset {offset}: {fault.message}"
  | .corrupt offset fault =>
    s!"Corrupt option framing at offset {offset}, abandoning rest of block: {fault.message}"
  | .limitReached limit left =>
    s!"Option limit of {limit} reached with {left} bytes left, abandoning rest of block"
  | .decoded head offset => s!"Decoded {head.text} ({offset} bytes)"

end Event

end Socks6
