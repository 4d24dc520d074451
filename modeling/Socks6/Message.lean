/-
# Socks6.Message — the three envelopes

A message is what its head says, and its options.  The method of an
authentication reply belongs to its options and travels in its head: writing
takes it from there, and reading puts it back.
-/
import Socks6.OptionSet.Block
import Socks6.OptionSet.Change

namespace Socks6

inductive Message where
  | request (code : RequestCode) (address : Address) (port : UInt16) (options : OptionSet)
  | authReply (code : AuthReplyCode) (options : OptionSet)
  | operationReply (code : OperationReplyCode) (initialDataOffset : UInt16) (address : Address)
      (port : UInt16) (options : OptionSet)
  deriving DecidableEq, Repr

namespace Message

def options : Message → OptionSet
  | .request _ _ _ options => options
  | .authReply _ options => options
  | .operationReply _ _ _ _ options => options

def head : Message → Head
  | .request code address port _ => .request code port address
  | .authReply code options => .authReply code options.methods.selected
  | .operationReply code initialDataOffset address port _ =>
    .operationReply code initialDataOffset port address

def mode (m : Message) : Mode := m.head.mode

/-- The message with other options. -/
def setOptions : Message → OptionSet → Message
  | .request code address port _, options => .request code address port options
  | .authReply code _, options => .authReply code options
  | .operationReply code initialDataOffset address port _, options =>
    .operationReply code initialDataOffset address port options

/-- The message with other options, which must be made for its kind of envelope. -/
def withOptions (m : Message) (options : OptionSet) : Except Error Message :=
  if options.mode = m.mode then .ok (m.setOptions options)
  else .error (.invalidField "options" (.wrongEnvelope options.mode m.mode))

def newRequest (code : RequestCode) (address : Address) (port : UInt16) : Message :=
  .request code address port (.empty .request)

def newAuthReply (code : AuthReplyCode) : Message := .authReply code (.empty .authReply)

def newOperationReply (code : OperationReplyCode) (initialDataOffset : UInt16)
    (address : Address) (port : UInt16) : Message :=
  .operationReply code initialDataOffset address port (.empty .operationReply)

/-- The message of a head and options that were read.  A method in the head is
selected in the options. -/
def assemble (head : Head) (options : OptionSet) : Except Error Message :=
  match head with
  | .request code port address => .ok (.request code address port options)
  | .authReply code method => do return .authReply code (← options.select method)
  | .operationReply code initialDataOffset port address =>
    .ok (.operationReply code initialDataOffset address port options)

def size (m : Message) : Nat := m.head.size + m.options.size

def write (m : Message) : CursorM Unit := do
  m.head.write
  m.options.write

/-- Writes the message at the start of a buffer.  The answer is the number of
bytes written; the buffer shows what was written even if that fails. -/
def fill (m : Message) (buffer : Bytes) : Except Error Nat × Bytes :=
  match m.write.on (.ofBytes buffer) with
  | (.error e, c) => (.error e, c.buffer)
  | (.ok (), c) =>
    if c.offset = m.size then (.ok m.size, c.buffer)
    else
      (.error (.unspecified s!"{m.mode.title} wrote {c.offset} bytes, expected {m.size}"), c.buffer)

def encode (m : Message) : Except Error Bytes :=
  match m.fill (List.replicate m.size 0) with
  | (.ok _, bytes) => .ok bytes
  | (.error e, _) => .error e

/-- Reads a message of a known kind, and gives the log of reading it. -/
def readLogged (mode : Mode) (policy : Policy) : CursorM (Message × List Event) := do
  let head ← Head.read mode
  let (options, events) ← OptionSet.read mode policy
  let message ← CursorM.ofExcept (assemble head options)
  return (message, events ++ [.decoded head (← CursorM.offset)])

/-- Reads a message of a known kind. -/
def read (mode : Mode) (policy : Policy) : CursorM Message :=
  return (← readLogged mode policy).1

end Message

end Socks6
