/-
# Socks6.OptionSet.Block — reading a set out of an option block

An option block comes from a peer and may be damaged anywhere.  It is first cut
into frames, as far as that goes; then the frames are absorbed by a set one by
one, and those that cannot be are dropped.  Only a block that is not all there
is an error.
-/
import Socks6.Event
import Socks6.OptionSet
import Socks6.Policy

namespace Socks6

/-- A frame, and where in its block it starts. -/
structure PlacedFrame where
  offset : Nat
  frame : Frame
  deriving DecidableEq, Repr

/-- Why no further frame is cut off a block. -/
inductive BlockEnd where
  /-- Nothing is left. -/
  | complete
  /-- As many frames as allowed were cut off, and bytes are left. -/
  | limitReached (left : Nat)
  /-- What is left at `offset` does not begin with a frame. -/
  | corrupt (offset : Nat) (fault : Error)
  deriving DecidableEq, Repr

/-- The event that goes with the end of a block. -/
def BlockEnd.events (limit : Nat) : BlockEnd → List Event
  | .complete => []
  | .limitReached left => [.limitReached limit left]
  | .corrupt offset fault => [.corrupt offset fault]

/-- Cuts up to `limit` frames off a block. -/
def Cursor.frames : (limit : Nat) → Cursor → List PlacedFrame × BlockEnd
  | 0, c => ([], if c.atEnd then .complete else .limitReached c.remaining)
  | n + 1, c =>
    if c.atEnd then ([], .complete)
    else
      let start := c.offset
      match Frame.read.on c with
      | (.error fault, _) => ([], .corrupt start fault)
      | (.ok frame, next) =>
        let (placed, ending) := next.frames n
        (⟨start, frame⟩ :: placed, ending)

namespace OptionSet

/-- The set with the option of a frame, or the event of dropping it. -/
def absorb (retain : Bool) (s : OptionSet) (p : PlacedFrame) : Except Event OptionSet :=
  match p.frame.interpret s.mode with
  | .error fault => .error (.malformed p.frame.kind p.offset fault)
  | .ok o =>
    if o.isRaw && !retain then .error (.unrecognized p.frame.kind p.offset)
    else
      match s.apply o with
      | .ok t => .ok t
      | .error fault => .error (.refused o.name p.offset fault)

/-- The set with the options of all frames that are absorbed, and the events of
the others. -/
def absorbAll (retain : Bool) (s : OptionSet) : List PlacedFrame → OptionSet × List Event
  | [] => (s, [])
  | p :: ps =>
    match s.absorb retain p with
    | .ok t => t.absorbAll retain ps
    | .error event =>
      let (t, events) := s.absorbAll retain ps
      (t, event :: events)

/-- The set that a block says, and the events of reading it. -/
def ofBlock (mode : Mode) (policy : Policy) (block : Bytes) : OptionSet × List Event :=
  let (placed, ending) := (Cursor.ofBytes block).frames policy.maxOptions
  let (s, dropped) := (empty mode).absorbAll policy.retainUnrecognized placed
  (s, dropped ++ ending.events policy.maxOptions)

/-- Reads a block behind its length. -/
def read (mode : Mode) (policy : Policy) : CursorM (OptionSet × List Event) := do
  let length ← CursorM.readU16
  let block ← CursorM.read length.toNat
  return ofBlock mode policy block.val

end OptionSet

end Socks6
