/-
# Socks6.OptionRecord — one option, interpreted or not

An option is one of five interpreted kinds, or a frame that is passed on as it
came.  Interpreted records are padded to four bytes; frames are not touched.
`Frame.interpret` and `OptionRecord.write` are the two directions.
-/
import Socks6.Alignment
import Socks6.Auth.Advertisement
import Socks6.Auth.Data
import Socks6.Frame
import Socks6.Session
import Socks6.Stack
import Socks6.Token

namespace Socks6

/-- The kinds of option that are interpreted. -/
inductive OptionKind where
  | stack
  | advertisement
  | authData
  | session
  | token
  deriving DecidableEq, Repr

instance : Coded OptionKind where
  members := [.stack, .advertisement, .authData, .session, .token]
  name
    | .stack => "Stack"
    | .advertisement => "AuthMethodAdvertisement"
    | .authData => "AuthData"
    | .session => "Session"
    | .token => "Idempotence"
  code
    | .stack => 1
    | .advertisement => 2
    | .authData => 3
    | .session => 4
    | .token => 5

/-- An option, as it stands in a record. -/
inductive OptionRecord where
  | stack (s : StackSetting)
  | advertisement (a : Advertisement)
  | authData (d : AuthData)
  | session (s : SessionSignal)
  | token (o : TokenOption)
  | raw (frame : Frame)
  deriving DecidableEq, Repr

namespace OptionRecord

def kind : OptionRecord → UInt16
  | .stack _ => UInt16.ofNat (Coded.code OptionKind.stack)
  | .advertisement _ => UInt16.ofNat (Coded.code OptionKind.advertisement)
  | .authData _ => UInt16.ofNat (Coded.code OptionKind.authData)
  | .session _ => UInt16.ofNat (Coded.code OptionKind.session)
  | .token _ => UInt16.ofNat (Coded.code OptionKind.token)
  | .raw frame => frame.kind

def name : OptionRecord → String
  | .stack o => o.property.name
  | .advertisement _ => "auth method advertisement"
  | .authData d => d.name
  | .session o => o.name
  | .token o => o.name
  | .raw _ => "raw option"

/-- The record is passed on without being interpreted. -/
def isRaw : OptionRecord → Bool
  | .raw _ => true
  | _ => false

/-- How many bytes the body takes, without padding. -/
def bodySize : OptionRecord → Nat
  | .stack o => o.bodySize
  | .advertisement a => a.bodySize
  | .authData d => d.bodySize
  | .session o => o.bodySize
  | .token o => o.bodySize
  | .raw frame => frame.body.length

def size (o : OptionRecord) : Nat :=
  match o with
  | .raw frame => frame.size
  | _ => Frame.headerSize + Alignment.padded o.bodySize Frame.headerSize

/-- What is written for the body, without padding. -/
def pieces : OptionRecord → List Bytes
  | .stack o => o.pieces
  | .advertisement a => a.pieces
  | .authData d => d.pieces
  | .session o => o.pieces
  | .token o => o.pieces
  | .raw frame => [frame.body]

/-- Writes an interpreted record, padded, unless its length does not fit into
the header; writes a raw one as it is. -/
def write (o : OptionRecord) : CursorM Unit :=
  match o with
  | .raw frame => frame.write
  | _ => do
    if Frame.maxBlock < o.size then
      throw (.invalidField o.name (.recordTooLong o.size))
    CursorM.writeAll (Frame.header o.kind (UInt16.ofNat o.size) ++ o.pieces)
    Alignment.write o.bodySize Frame.headerSize

/-- What the values themselves allow; an option without such a rule gives `none`. -/
def validate? : OptionRecord → Option (Except Error Unit)
  | .stack o => some o.property.validate
  | .advertisement a => some a.validate
  | .authData (.credentials c) => some c.validate
  | .token o => some o.validate
  | _ => none

/-- The option may travel in this kind of envelope. -/
def allowedIn (mode : Mode) : OptionRecord → Bool
  | .stack ⟨_, .multipath _⟩ => mode = .operationReply
  | .stack _ => mode ≠ .authReply
  | .session (.state .request) | .session .teardown => mode = .request
  | .session (.state (.id _)) => mode ≠ .operationReply
  | .session (.state .ok) | .session (.state .rejected) => mode = .authReply
  | .session .untrusted => mode ≠ .request
  | .token (.windowRequest _) | .token (.expenditure _) => mode = .request
  | .token (.window _) | .token (.expenditureReply _) => mode = .authReply
  | .advertisement _ => mode = .request
  | .authData (.credentials _) => mode = .request
  | .authData (.verdict _) => mode = .authReply
  | .raw _ => true

/-- Reads the body of an interpreted kind; `none` where its content is unknown. -/
def readBody (mode : Mode) : OptionKind → CursorM (Option OptionRecord)
  | .stack => return (← StackSetting.readBody).map .stack
  | .advertisement => return some (.advertisement (← Advertisement.readBody))
  | .authData => return (← AuthData.readBody mode).map .authData
  | .session => return (← SessionSignal.readBody).map .session
  | .token => return (← TokenOption.readBody).map .token

end OptionRecord

/-- The option in a frame.  What is unknown, by its kind or by its content, stays
a frame; what is known and broken is an error. -/
def Frame.interpret (mode : Mode) (frame : Frame) : Except Error OptionRecord := do
  match Coded.ofCode? OptionKind frame.kind.toNat with
  | none => return .raw frame
  | some kind =>
    let known ← (OptionRecord.readBody mode kind).onBytes frame.body
    return known.getD (.raw frame)

end Socks6
