/-
# Socks6.Leg — the two legs of a relayed connection

A relayed connection has a leg from the client to the proxy and one from the
proxy to the remote host.  A property can be set on one of them or on both at
once.  `Legs.entries` says what is set in as few entries as possible: one for
both legs where they agree.
-/
import Socks6.Slot

namespace Socks6

/-- The legs that an option is about. -/
inductive Leg where
  | clientProxy
  | proxyRemote
  | both
  deriving DecidableEq, Repr

instance : Coded Leg where
  members := [.clientProxy, .proxyRemote, .both]
  name
    | .clientProxy => "ClientProxy"
    | .proxyRemote => "ProxyRemote"
    | .both => "Both"
  code
    | .clientProxy => 1
    | .proxyRemote => 2
    | .both => 3

/-- The values of one property on the two legs. -/
structure Legs (α : Type) where
  clientProxy : Option α
  proxyRemote : Option α
  deriving DecidableEq, Repr

namespace Legs

variable {α : Type} [DecidableEq α]

def empty : Legs α := ⟨none, none⟩

def isEmpty (l : Legs α) : Bool := l.clientProxy.isNone && l.proxyRemote.isNone

/-- The value that holds on both legs, if there is one. -/
def common (l : Legs α) : Option α :=
  if l.clientProxy = l.proxyRemote then l.clientProxy else none

/-- The value on a leg; on both, the common one. -/
def get (l : Legs α) : Leg → Option α
  | .clientProxy => l.clientProxy
  | .proxyRemote => l.proxyRemote
  | .both => l.common

/-- Sets the value on the legs that an option is about, on all of them or on none. -/
def merge [Shown α] (field : String) (l : Legs α) (leg : Leg) (value : α) :
    Except Error (Legs α) :=
  match leg with
  | .clientProxy => do return { l with clientProxy := ← Slot.merge field l.clientProxy value }
  | .proxyRemote => do return { l with proxyRemote := ← Slot.merge field l.proxyRemote value }
  | .both => do
    Slot.check field l.clientProxy value
    Slot.check field l.proxyRemote value
    return ⟨some value, some value⟩

/-- What is set, and on which legs. -/
def entries (l : Legs α) : List (Leg × α) :=
  match l.common with
  | some value => [(.both, value)]
  | none => l.clientProxy.toList.map (.clientProxy, ·) ++ l.proxyRemote.toList.map (.proxyRemote, ·)

end Legs

end Socks6
