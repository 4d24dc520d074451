/-
# Socks6.Auth.Credentials — username and password, and the verdict on them

Both messages of this exchange open with a version of their own.  Credentials
with an empty name or a zero byte can be read and written; they are refused only
where they are put to use.
-/
import Socks6.ShortString

namespace Socks6

namespace Subnegotiation

/-- The version of the username/password messages. -/
def version : UInt8 := 1

/-- Reads the version of `message`; no other is accepted. -/
def checkVersion (message : String) : CursorM Unit := do
  let found ← CursorM.readU8
  unless found = version do
    throw (.badVersion found 0 (.subnegotiation message version))

end Subnegotiation

/-- A username and a password. -/
structure Credentials where
  username : ShortString
  password : ShortString
  deriving DecidableEq, Repr

namespace Credentials

/-- Credentials from byte strings, each of at most 255 bytes. -/
def ofBytes (username password : Bytes) : Except Error Credentials :=
  return ⟨← ShortString.ofBytes username, ← ShortString.ofBytes password⟩

/-- Both parts must be proper names. -/
def validate (c : Credentials) : Except Error Unit := do
  c.username.checkName "username"
  c.password.checkName "password"

def size (c : Credentials) : Nat := 1 + c.username.size + c.password.size

def pieces (c : Credentials) : List Bytes :=
  [Subnegotiation.version] :: (c.username.pieces ++ c.password.pieces)

def write (c : Credentials) : CursorM Unit := CursorM.writeAll c.pieces

def encode (c : Credentials) : Except Error Bytes := c.write.filling c.size

def read : CursorM Credentials := do
  Subnegotiation.checkVersion "username/password request"
  let username ← ShortString.read
  let password ← ShortString.read
  return ⟨username, password⟩

theorem length_pieces (c : Credentials) : c.pieces.flatten.length = c.size := by
  simp only [pieces, size, List.flatten_cons, List.flatten_append, List.length_append,
    List.length_singleton, ShortString.length_pieces]
  omega

end Credentials

/-! ## The verdict -/

/-- The proxy's word on credentials: `true` where they were accepted. -/
abbrev Verdict := Bool

namespace Verdict

def size : Nat := 2

def status (success : Verdict) : UInt8 := if success then 0 else 1

def pieces (success : Verdict) : List Bytes := [[Subnegotiation.version], [status success]]

def write (success : Verdict) : CursorM Unit := CursorM.writeAll (pieces success)

def encode (success : Verdict) : Except Error Bytes := (write success).filling size

/-- Reads a verdict; a status byte other than zero and one is refused. -/
def read : CursorM Verdict := do
  Subnegotiation.checkVersion "username/password reply"
  let found ← CursorM.readU8
  if found = status true then return true
  else if found = status false then return false
  else throw (.invalidField "username/password status" (.unknownStatus found))

end Verdict

end Socks6
