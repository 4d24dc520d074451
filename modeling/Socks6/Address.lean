/-
# Socks6.Address — where a connection goes

An address is a tag and a payload: four octets, sixteen octets, or a name.  Any
short string can be held as a domain, but only a proper name can be written or
read.
-/
import Socks6.ShortString
import Socks6.Text.Ip

namespace Socks6

/-- The kinds of address, by their tags. -/
inductive AddressType where
  | ipv4
  | domain
  | ipv6
  deriving DecidableEq, Repr

instance : Coded AddressType where
  members := [.ipv4, .domain, .ipv6]
  name
    | .ipv4 => "Ipv4"
    | .domain => "Domain"
    | .ipv6 => "Ipv6"
  code
    | .ipv4 => 1
    | .domain => 3
    | .ipv6 => 4

/-- The address of a peer. -/
inductive Address where
  | ipv4 (octets : Octets 4)
  | ipv6 (octets : Octets 16)
  | domain (name : ShortString)
  deriving DecidableEq, Repr

namespace Address

/-- The address that stands for none, 0.0.0.0. -/
def unspecified : Address := .ipv4 ⟨[0, 0, 0, 0], rfl⟩

/-- A domain that is checked to be a proper name. -/
def named (bs : Bytes) : Except Error Address := do
  let name ← ShortString.ofBytes bs
  name.checkName "domain"
  return .domain name

def type : Address → AddressType
  | .ipv4 _ => .ipv4
  | .ipv6 _ => .ipv6
  | .domain _ => .domain

def size : Address → Nat
  | .ipv4 _ => 1 + 4
  | .ipv6 _ => 1 + 16
  | .domain name => 1 + name.size

/-- Writes the address; the tag is out before a domain is looked at. -/
def write (address : Address) : CursorM Unit := do
  CursorM.writeU8 (Coded.byte address.type)
  match address with
  | .ipv4 octets => CursorM.write octets.val
  | .ipv6 octets => CursorM.write octets.val
  | .domain name =>
    CursorM.ofExcept (name.checkName "domain")
    name.write

/-- Reads what follows the tag. -/
def readPayload : AddressType → CursorM Address
  | .ipv4 => return .ipv4 (← CursorM.read 4)
  | .ipv6 => return .ipv6 (← CursorM.read 16)
  | .domain => do
    let name ← ShortString.read
    CursorM.ofExcept (name.checkName "domain")
    return .domain name

def read : CursorM Address := do
  let tag ← CursorM.readU8
  match Coded.ofCode? AddressType tag.toNat with
  | some type => readPayload type
  | none => throw (.badAddressType tag)

def text : Address → String
  | .ipv4 octets => Ip.dotted octets.val
  | .ipv6 octets => "[" ++ Ip.text6 octets.val ++ "]"
  | .domain name => name.text

end Address

end Socks6
