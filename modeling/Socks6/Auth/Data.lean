/-
# Socks6.Auth.Data — authentication data in an option

Authentication data names its method first.  Only username/password is
interpreted; which of its two messages the data holds depends on the envelope,
and in an operation reply there is no such data at all.
-/
import Socks6.Auth.Credentials
import Socks6.Auth.Method
import Socks6.Slot

namespace Socks6

/-- Interpreted authentication data. -/
inductive AuthData where
  | credentials (c : Credentials)
  | verdict (success : Verdict)
  deriving DecidableEq, Repr

namespace AuthData

def name : AuthData → String
  | .credentials _ => "username/password credentials"
  | .verdict _ => "username/password reply"

def bodySize : AuthData → Nat
  | .credentials c => 1 + c.size
  | .verdict _ => 1 + Verdict.size

def pieces (d : AuthData) : List Bytes :=
  [AuthMethod.usernamePassword.byte] ::
    match d with
    | .credentials c => c.pieces
    | .verdict success => Verdict.pieces success

/-- Reads a body; the data of another method is not interpreted. -/
def readBody (mode : Mode) : CursorM (Option AuthData) := do
  let method ← CursorM.readU8
  if AuthMethod.ofByte method ≠ .usernamePassword then return none
  match mode with
  | .request => return some (.credentials (← Credentials.read))
  | .authReply => return some (.verdict (← Verdict.read))
  | .operationReply => throw (.notAllowed "username/password auth data" mode)

end AuthData

instance : Shown ShortString where
  shown s := "LengthPrefixedString([" ++
    ", ".intercalate (s.bytes.map fun b => toString b.toNat) ++ "])"

instance : Shown Credentials where
  shown c := "UserPasswordRequest \x7b username: " ++ Shown.shown c.username ++
    ", password: " ++ Shown.shown c.password ++ " \x7d"

/-- What a set of options says about a username and a password. -/
structure AuthDataGroup where
  credentials : Option Credentials
  verdict : Option Verdict
  deriving DecidableEq, Repr

namespace AuthDataGroup

def empty : AuthDataGroup := ⟨none, none⟩

def isEmpty (g : AuthDataGroup) : Bool := g.credentials.isNone && g.verdict.isNone

/-- Adds authentication data; here credentials must be proper names. -/
def merge (g : AuthDataGroup) (d : AuthData) : Except Error AuthDataGroup :=
  match d with
  | .credentials c => do
    c.validate
    return { g with credentials := ← Slot.merge d.name g.credentials c }
  | .verdict success => do
    return { g with verdict := ← Slot.merge d.name g.verdict success }

/-- The data that says what the group says; credentials come first. -/
def data (g : AuthDataGroup) : Option AuthData :=
  match g.credentials, g.verdict with
  | some c, _ => some (.credentials c)
  | none, some success => some (.verdict success)
  | none, none => none

end AuthDataGroup

end Socks6
