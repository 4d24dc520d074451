/-
# Socks6.Session — sessions and their signals

A client asks for a session and is given an identifier, which later requests
show again.  A set of options holds at most one of the four primary signals;
teardown and untrusted stand beside it.
-/
import Socks6.Cursor
import Socks6.Slot

namespace Socks6

/-- The identifier of a session: between one and 255 bytes. -/
structure SessionId where
  bytes : Bytes
  bounds : 1 ≤ bytes.length ∧ bytes.length ≤ 255
  deriving DecidableEq, Repr

namespace SessionId

def maxLength : Nat := 255

/-- A byte string as an identifier, if its length is in range. -/
def ofBytes (bs : Bytes) : Except Error SessionId :=
  if h : 1 ≤ bs.length ∧ bs.length ≤ 255 then .ok ⟨bs, h⟩
  else .error (.invalidField "session id" (.lengthOutside bs.length maxLength))

def length (id : SessionId) : Nat := id.bytes.length

def text (id : SessionId) : String := Hex.ofBytes id.bytes

instance : Shown SessionId where
  shown id := "SessionId(" ++ id.text ++ ")"

end SessionId

/-- The kinds of session signal. -/
inductive SessionType where
  | request
  | id
  | ok
  | rejected
  | teardown
  | untrusted
  deriving DecidableEq, Repr

instance : Coded SessionType where
  members := [.request, .id, .ok, .rejected, .teardown, .untrusted]
  name
    | .request => "Request"
    | .id => "Id"
    | .ok => "Ok"
    | .rejected => "Rejected"
    | .teardown => "Teardown"
    | .untrusted => "Untrusted"
  code
    | .request => 1
    | .id => 2
    | .ok => 3
    | .rejected => 4
    | .teardown => 5
    | .untrusted => 6

/-- The primary signals, of which a set of options holds at most one. -/
inductive SessionState where
  | request
  | id (id : SessionId)
  | ok
  | rejected
  deriving DecidableEq, Repr

instance : Shown SessionState where
  shown
    | .request => "Request"
    | .id id => "Id(" ++ Shown.shown id ++ ")"
    | .ok => "Ok"
    | .rejected => "Rejected"

/-- A signal about the session of an envelope. -/
inductive SessionSignal where
  | state (s : SessionState)
  | teardown
  | untrusted
  deriving DecidableEq, Repr

namespace SessionSignal

def type : SessionSignal → SessionType
  | .state .request => .request
  | .state (.id _) => .id
  | .state .ok => .ok
  | .state .rejected => .rejected
  | .teardown => .teardown
  | .untrusted => .untrusted

def name (s : SessionSignal) : String :=
  match s.type with
  | .request => "session request"
  | .id => "session id"
  | .ok => "session ok"
  | .rejected => "session rejected"
  | .teardown => "session teardown"
  | .untrusted => "session untrusted"

def bodySize : SessionSignal → Nat
  | .state (.id id) => 2 + id.length
  | _ => 1

def pieces (s : SessionSignal) : List Bytes :=
  [Coded.byte s.type] ::
    match s with
    | .state (.id id) => [[UInt8.ofNat id.length], id.bytes]
    | _ => []

/-- Reads a body; unknown kinds are not interpreted. -/
def readBody : CursorM (Option SessionSignal) := do
  let type ← CursorM.readU8
  match Coded.ofCode? SessionType type.toNat with
  | none => return none
  | some .request => return some (.state .request)
  | some .id =>
    let length ← CursorM.readU8
    let bytes ← CursorM.read length.toNat
    let id ← CursorM.ofExcept (SessionId.ofBytes bytes.val)
    return some (.state (.id id))
  | some .ok => return some (.state .ok)
  | some .rejected => return some (.state .rejected)
  | some .teardown => return some .teardown
  | some .untrusted => return some .untrusted

end SessionSignal

/-- What a set of options says about its session. -/
structure SessionGroup where
  state : Option SessionState
  teardown : Bool
  untrusted : Bool
  deriving DecidableEq, Repr

namespace SessionGroup

def empty : SessionGroup := ⟨none, false, false⟩

def isEmpty (g : SessionGroup) : Bool := g.state.isNone && !g.teardown && !g.untrusted

/-- The identifier, where the state is one. -/
def id? (g : SessionGroup) : Option SessionId :=
  match g.state with
  | some (.id id) => some id
  | _ => none

def merge (g : SessionGroup) : SessionSignal → Except Error SessionGroup
  | .state s => do return { g with state := ← Slot.merge "session state" g.state s }
  | .teardown => .ok { g with teardown := true }
  | .untrusted => .ok { g with untrusted := true }

/-- The signals that say what the group says. -/
def signals (g : SessionGroup) : List SessionSignal :=
  g.state.toList.map .state ++ (if g.teardown then [.teardown] else []) ++
    (if g.untrusted then [.untrusted] else [])

end SessionGroup

end Socks6
