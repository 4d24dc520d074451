/-
# Socks6.Token — windows of tokens

A client asks for a number of tokens, the proxy grants them as a window, and
each later request may spend one of them, so that the proxy recognises a request
that is sent twice.  Tokens are 32-bit numbers that wrap around.  A window never
covers more than half of them, so two windows in a row share no token.
-/
import Socks6.Cursor
import Socks6.Slot

namespace Socks6

/-- Consecutive tokens from a base on, wrapping around at the end of the numbers. -/
structure TokenWindow where
  base : UInt32
  size : UInt32
  deriving DecidableEq, Repr

namespace TokenWindow

/-- The largest window: half of all tokens. -/
def maxSize : UInt32 := 2147483648

/-- A window has at least one token and at most half of them. -/
def checkSize (size : UInt32) : Except Error Unit :=
  if size = 0 ∨ maxSize < size then
    .error (.invalidField "idempotence window size" (.outside size.toNat maxSize.toNat))
  else .ok ()

/-- A window, if its size is in range. -/
def ofSize (base size : UInt32) : Except Error TokenWindow := do
  checkSize size
  return ⟨base, size⟩

/-- The token lies in the window: its distance from the base, going up and
around, is less than the size. -/
def contains (w : TokenWindow) (token : UInt32) : Bool := token - w.base < w.size

instance : Shown TokenWindow where
  shown w := s!"TokenWindow \x7b base: {w.base.toNat}, size: {w.size.toNat} \x7d"

end TokenWindow

/-- The kinds of token option. -/
inductive TokenOptionType where
  | windowRequest
  | window
  | expenditure
  | expenditureReply
  deriving DecidableEq, Repr

instance : Coded TokenOptionType where
  members := [.windowRequest, .window, .expenditure, .expenditureReply]
  name
    | .windowRequest => "WindowRequest"
    | .window => "Window"
    | .expenditure => "Expenditure"
    | .expenditureReply => "ExpenditureReply"
  code
    | .windowRequest => 1
    | .window => 2
    | .expenditure => 3
    | .expenditureReply => 4

/-- The proxy's answer to a spent token. -/
inductive Expenditure where
  | accepted
  | rejected
  deriving DecidableEq, Repr

instance : Coded Expenditure where
  members := [.accepted, .rejected]
  name
    | .accepted => "Accepted"
    | .rejected => "Rejected"
  code
    | .accepted => 1
    | .rejected => 2

instance : Shown Expenditure where
  shown := Named.name

/-- An option about tokens. -/
inductive TokenOption where
  | windowRequest (size : UInt32)
  | window (w : TokenWindow)
  | expenditure (token : UInt32)
  | expenditureReply (result : Expenditure)
  deriving DecidableEq, Repr

namespace TokenOption

def type : TokenOption → TokenOptionType
  | .windowRequest _ => .windowRequest
  | .window _ => .window
  | .expenditure _ => .expenditure
  | .expenditureReply _ => .expenditureReply

def name : TokenOption → String
  | .windowRequest _ => "idempotence window request"
  | .window _ => "idempotence window"
  | .expenditure _ => "idempotence token"
  | .expenditureReply _ => "idempotence expenditure reply"

/-- Sizes of windows are in range. -/
def validate : TokenOption → Except Error Unit
  | .windowRequest size => TokenWindow.checkSize size
  | .window w => TokenWindow.checkSize w.size
  | _ => .ok ()

def bodySize : TokenOption → Nat
  | .windowRequest _ | .expenditure _ => 1 + 4
  | .window _ => 1 + 8
  | .expenditureReply _ => 1 + 1

def pieces (o : TokenOption) : List Bytes :=
  [Coded.byte o.type] ::
    match o with
    | .windowRequest size => [Bytes.ofUInt32 size]
    | .window w => [Bytes.ofUInt32 w.base, Bytes.ofUInt32 w.size]
    | .expenditure token => [Bytes.ofUInt32 token]
    | .expenditureReply result => [[Coded.byte result]]

/-- Reads what follows the kind. -/
def readPayload : TokenOptionType → CursorM TokenOption
  | .windowRequest => return .windowRequest (← CursorM.readU32)
  | .window => do
    let base ← CursorM.readU32
    let size ← CursorM.readU32
    return .window ⟨base, size⟩
  | .expenditure => return .expenditure (← CursorM.readU32)
  | .expenditureReply =>
    return .expenditureReply (← CursorM.readCoded Expenditure "idempotence expenditure reply")

/-- Reads a body; unknown kinds are not interpreted. -/
def readBody : CursorM (Option TokenOption) := do
  let type ← CursorM.readU8
  match Coded.ofCode? TokenOptionType type.toNat with
  | none => return none
  | some type =>
    let option ← readPayload type
    CursorM.ofExcept option.validate
    return some option

end TokenOption

/-- What a set of options says about tokens. -/
structure TokenGroup where
  windowRequest : Option UInt32
  token : Option UInt32
  window : Option TokenWindow
  expenditureReply : Option Expenditure
  deriving DecidableEq, Repr

namespace TokenGroup

def empty : TokenGroup := ⟨none, none, none, none⟩

def isEmpty (g : TokenGroup) : Bool :=
  g.windowRequest.isNone && g.token.isNone && g.window.isNone && g.expenditureReply.isNone

def merge (g : TokenGroup) (o : TokenOption) : Except Error TokenGroup := do
  o.validate
  match o with
  | .windowRequest size =>
    return { g with windowRequest := ← Slot.merge o.name g.windowRequest size }
  | .window w => return { g with window := ← Slot.merge o.name g.window w }
  | .expenditure token => return { g with token := ← Slot.merge o.name g.token token }
  | .expenditureReply result =>
    return { g with expenditureReply := ← Slot.merge o.name g.expenditureReply result }

/-- The options that say what the group says. -/
def options (g : TokenGroup) : List TokenOption :=
  g.windowRequest.toList.map .windowRequest ++ g.token.toList.map .expenditure ++
    g.window.toList.map .window ++ g.expenditureReply.toList.map .expenditureReply

end TokenGroup

end Socks6
