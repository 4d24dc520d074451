/-
# Socks6.Auth.Advertisement — the methods a client offers

A request lists the methods that its sender is ready to use, together with the
length of the initial data that follows it.  No-authentication is always
offered, so it is never listed; no-acceptable is an answer and cannot be
offered.  On the wire the list is padded with zeros, and a zero byte is never a
method.
-/
import Socks6.Auth.MethodSet
import Socks6.Cursor
import Socks6.Slot

namespace Socks6

structure Advertisement where
  initialDataLength : UInt16
  methods : List AuthMethod
  deriving DecidableEq, Repr

namespace Advertisement

/-- The most initial data that a request may announce. -/
def maxInitialData : UInt16 := 16384

/-- The announced length is in range, and every method can be offered. -/
def validate (a : Advertisement) : Except Error Unit :=
  if maxInitialData < a.initialDataLength then
    .error (.invalidField "initial data length"
      (.exceeds a.initialDataLength.toNat maxInitialData.toNat))
  else if a.methods.contains .noAcceptable then
    .error (.invalidField "auth method" .notAdvertisable)
  else .ok ()

/-- The methods that are written out. -/
def emitted (a : Advertisement) : List AuthMethod := a.methods.filter (· ≠ .noAuth)

def bodySize (a : Advertisement) : Nat := 2 + a.emitted.length

def pieces (a : Advertisement) : List Bytes :=
  Bytes.ofUInt16 a.initialDataLength :: a.emitted.map fun m => [m.byte]

/-- Reads a body to its end; zeros between and behind the methods are padding. -/
def readBody : CursorM Advertisement := do
  let length ← CursorM.readU16
  let bs ← CursorM.readRest
  return ⟨length, (bs.filter (· ≠ 0)).map AuthMethod.ofByte⟩

end Advertisement

instance : Shown AuthMethod where
  shown
    | .noAuth => "NoAuth"
    | .gssapi => "Gssapi"
    | .usernamePassword => "UsernamePassword"
    | .noAcceptable => "NoAcceptable"
    | .other code => s!"Other({code.toNat})"

/-- What a set of options says about methods: which are offered, how much
initial data is announced, and which method was selected in answer. -/
structure MethodGroup where
  advertised : MethodSet
  initialDataLength : Option UInt16
  selected : AuthMethod
  deriving DecidableEq, Repr

namespace MethodGroup

def empty : MethodGroup := ⟨.empty, none, .noAuth⟩

/-- The method is offered; no-authentication always is. -/
def isAdvertised (g : MethodGroup) (m : AuthMethod) : Bool :=
  m = .noAuth || g.advertised.contains m

/-- Adds an advertisement.  A length of zero announces nothing. -/
def merge (g : MethodGroup) (a : Advertisement) : Except Error MethodGroup := do
  a.validate
  let length ←
    if a.initialDataLength = 0 then pure g.initialDataLength
    else Slot.merge "initial data length" g.initialDataLength a.initialDataLength
  return { g with
    initialDataLength := length
    advertised := g.advertised.insertAll a.emitted }

/-- Selects a method.  No-authentication is what holds before any selection, so
it can be replaced, but not returned to. -/
def select (g : MethodGroup) (m : AuthMethod) : Except Error MethodGroup := do
  let held := if g.selected = .noAuth then none else some g.selected
  Slot.check "selected auth method" held m
  return { g with selected := m }

/-- The advertisement that says what the group says, if it says anything. -/
def advertisement (g : MethodGroup) : Option Advertisement :=
  if g.advertised.isEmpty && g.initialDataLength.isNone then none
  else some ⟨g.initialDataLength.getD 0, g.advertised.toList⟩

end MethodGroup

end Socks6
