/-
# Socks6.Stack — properties of the network stack

A stack setting gives one property of the network stack a value, on one leg or on
both.  A property that is not known here — of another protocol level, or with
another code — is left uninterpreted; a known one with a value outside its domain
is an error.
-/
import Socks6.Cursor
import Socks6.Leg

namespace Socks6

/-- The protocol levels that have options. -/
inductive StackLevel where
  | ip
  | ipv4
  | ipv6
  | tcp
  | udp
  deriving DecidableEq, Repr

instance : Coded StackLevel where
  members := [.ip, .ipv4, .ipv6, .tcp, .udp]
  name
    | .ip => "Ip"
    | .ipv4 => "Ipv4"
    | .ipv6 => "Ipv6"
    | .tcp => "Tcp"
    | .udp => "Udp"
  code
    | .ip => 1
    | .ipv4 => 2
    | .ipv6 => 3
    | .tcp => 4
    | .udp => 5

/-- How a multipath connection spreads its traffic. -/
inductive Scheduler where
  | default
  | redundant
  | backup
  deriving DecidableEq, Repr

instance : Coded Scheduler where
  members := [.default, .redundant, .backup]
  name
    | .default => "Default"
    | .redundant => "Redundant"
    | .backup => "Backup"
  code
    | .default => 1
    | .redundant => 2
    | .backup => 3

instance : Shown Scheduler where
  shown := Named.name

/-! ## Properties -/

/-- A property of the stack, with its value. -/
inductive StackProperty where
  | tos (value : UInt8)
  | fastOpen (payloadSize : UInt16)
  | multipath (available : Bool)
  | scheduler (s : Scheduler)
  | backlog (n : UInt16)
  deriving DecidableEq, Repr

namespace StackProperty

/-- The protocol level of a property. -/
def level : StackProperty → StackLevel
  | .tos _ => .ip
  | _ => .tcp

/-- The code of a property within its level. -/
def code : StackProperty → UInt8
  | .tos _ => 1
  | .fastOpen _ => 1
  | .multipath _ => 2
  | .scheduler _ => 3
  | .backlog _ => 4

def name : StackProperty → String
  | .tos _ => "tos"
  | .fastOpen _ => "tcp fast open"
  | .multipath _ => "multipath"
  | .scheduler _ => "multipath scheduler"
  | .backlog _ => "listen backlog"

/-- A listening socket keeps room for at least one connection. -/
def validate : StackProperty → Except Error Unit
  | .backlog n => if n = 0 then .error (.invalidField "listen backlog" .zeroBacklog) else .ok ()
  | _ => .ok ()

/-- How many bytes the value takes. -/
def valueSize : StackProperty → Nat
  | .fastOpen _ | .backlog _ => 2
  | _ => 1

/-- What is written for the value. -/
def valueBytes : StackProperty → Bytes
  | .tos value => [value]
  | .fastOpen payloadSize => Bytes.ofUInt16 payloadSize
  | .multipath available => [if available then 1 else 0]
  | .scheduler s => [Coded.byte s]
  | .backlog n => Bytes.ofUInt16 n

def readFlag : CursorM Bool := do
  let byte ← CursorM.readU8
  if byte = 0 then return false
  else if byte = 1 then return true
  else throw (.invalidField "multipath" (.notAFlag byte))

/-- Reads the value of the property with a level and a code, if there is one. -/
def readValue (level : StackLevel) (code : UInt8) : CursorM (Option StackProperty) :=
  match level, code.toNat with
  | .ip, 1 => return some (.tos (← CursorM.readU8))
  | .tcp, 1 => return some (.fastOpen (← CursorM.readU16))
  | .tcp, 2 => return some (.multipath (← readFlag))
  | .tcp, 3 => return some (.scheduler (← CursorM.readCoded Scheduler "multipath scheduler"))
  | .tcp, 4 => return some (.backlog (← CursorM.readU16))
  | _, _ => return none

end StackProperty

/-! ## Settings -/

/-- A property, and the legs it is set for. -/
structure StackSetting where
  leg : Leg
  property : StackProperty
  deriving DecidableEq, Repr

namespace StackSetting

def bodySize (s : StackSetting) : Nat := 3 + s.property.valueSize

def pieces (s : StackSetting) : List Bytes :=
  [[Coded.byte s.leg], [Coded.byte s.property.level], [s.property.code], s.property.valueBytes]

/-- Reads a body; unknown levels and codes are not interpreted. -/
def readBody : CursorM (Option StackSetting) := do
  let leg ← CursorM.readCoded Leg "stack leg"
  let level ← CursorM.readU8
  match Coded.ofCode? StackLevel level.toNat with
  | none => return none
  | some level =>
    let code ← CursorM.readU8
    match ← StackProperty.readValue level code with
    | none => return none
    | some property =>
      CursorM.ofExcept property.validate
      return some ⟨leg, property⟩

end StackSetting

/-- What a set of options says about the stack. -/
structure StackGroup where
  tos : Legs UInt8
  fastOpen : Legs UInt16
  multipath : Legs Bool
  scheduler : Legs Scheduler
  backlog : Legs UInt16
  deriving DecidableEq, Repr

namespace StackGroup

def empty : StackGroup := ⟨.empty, .empty, .empty, .empty, .empty⟩

def isEmpty (g : StackGroup) : Bool :=
  g.tos.isEmpty && g.fastOpen.isEmpty && g.multipath.isEmpty && g.scheduler.isEmpty &&
    g.backlog.isEmpty

def merge (g : StackGroup) (s : StackSetting) : Except Error StackGroup := do
  s.property.validate
  let field := s.property.name
  match s.property with
  | .tos value => return { g with tos := ← g.tos.merge field s.leg value }
  | .fastOpen size => return { g with fastOpen := ← g.fastOpen.merge field s.leg size }
  | .multipath flag => return { g with multipath := ← g.multipath.merge field s.leg flag }
  | .scheduler how => return { g with scheduler := ← g.scheduler.merge field s.leg how }
  | .backlog n => return { g with backlog := ← g.backlog.merge field s.leg n }

/-- The settings of one property. -/
def settingsOf {α : Type} [DecidableEq α] (property : α → StackProperty) (l : Legs α) :
    List StackSetting :=
  l.entries.map fun (leg, value) => ⟨leg, property value⟩

/-- The settings that say what the group says. -/
def settings (g : StackGroup) : List StackSetting :=
  settingsOf .tos g.tos ++ settingsOf .fastOpen g.fastOpen ++ settingsOf .multipath g.multipath ++
    settingsOf .scheduler g.scheduler ++ settingsOf .backlog g.backlog

end StackGroup

end Socks6
