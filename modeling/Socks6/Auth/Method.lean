/-
# Socks6.Auth.Method — authentication methods

Every byte names a method.  Four of them have names of their own; the rest are
`other`.  The converse map is not injective: `other 2` and `usernamePassword`
are different values with the same byte, and only the second is canonical.
-/
import Socks6.Text.Hex

namespace Socks6

inductive AuthMethod where
  | noAuth
  | gssapi
  | usernamePassword
  | noAcceptable
  | other (code : UInt8)
  deriving DecidableEq, Repr

namespace AuthMethod

/-- The method that a byte names. -/
def ofByte (b : UInt8) : AuthMethod :=
  if b = 0x00 then .noAuth
  else if b = 0x01 then .gssapi
  else if b = 0x02 then .usernamePassword
  else if b = 0xFF then .noAcceptable
  else .other b

/-- The byte of a method. -/
def byte : AuthMethod → UInt8
  | .noAuth => 0x00
  | .gssapi => 0x01
  | .usernamePassword => 0x02
  | .noAcceptable => 0xFF
  | .other code => code

/-- A method's place in the order of methods: the named ones first, then the
others by their bytes. -/
def rank : AuthMethod → Nat
  | .noAuth => 0
  | .gssapi => 1
  | .usernamePassword => 2
  | .noAcceptable => 3
  | .other code => 4 + code.toNat

def text : AuthMethod → String
  | .noAuth => "no-auth"
  | .gssapi => "gssapi"
  | .usernamePassword => "username/password"
  | .noAcceptable => "no-acceptable"
  | .other code => "method " ++ Hex.tag code

@[simp] theorem byte_ofByte (b : UInt8) : (ofByte b).byte = b := by
  unfold ofByte
  split
  · simp_all [byte]
  · split
    · simp_all [byte]
    · split
      · simp_all [byte]
      · split <;> simp_all [byte]

theorem rank_injective {a b : AuthMethod} (h : a.rank = b.rank) : a = b := by
  cases a with
  | other c =>
    cases b with
    | other d => simp only [rank] at h; exact congrArg other (UInt8.toNat_inj.mp (by omega))
    | _ => simp only [rank] at h; omega
  | _ =>
    cases b with
    | other d => simp only [rank] at h; omega
    | _ => first | rfl | (simp only [rank] at h; omega)

end AuthMethod

end Socks6
