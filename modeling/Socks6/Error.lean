/-
# Socks6.Error — what can go wrong, and how it is worded

An error is kept as its cause; `Error.message` turns a cause into text and is
the only place that does.  A caller branches on the cause, or on `Error.code`,
and never on the text.
-/
import Socks6.Mode
import Socks6.Text.Hex

namespace Socks6

/-- What was done to a buffer when it turned out too short. -/
inductive Access where
  | read
  | peek
  | skip
  | write
  deriving DecidableEq, Repr

def Access.word : Access → String
  | .read => "read"
  | .peek => "peek"
  | .skip => "skip"
  | .write => "write"

/-- Where bytes were missing. -/
inductive Place where
  /-- At the cursor, which stood at `offset`. -/
  | cursor (access : Access) (offset : Nat)
  /-- At `position`, where a number was to be overwritten. -/
  | patch (position : Nat)
  | described (text : String)
  deriving DecidableEq, Repr

def Place.text : Place → String
  | .cursor access offset => s!"{access.word} at offset {offset}"
  | .patch position => s!"patch at offset {position} beyond written region"
  | .described text => text

/-- Which version was expected. -/
inductive VersionRule where
  /-- Every envelope opens with the protocol version. -/
  | envelope (major minor : UInt8)
  /-- The username/password messages open with a version of their own. -/
  | subnegotiation (message : String) (version : UInt8)
  | described (text : String)
  deriving DecidableEq, Repr

def VersionRule.text : VersionRule → String
  | .envelope major minor => s!"expected {major.toNat}.{minor.toNat}"
  | .subnegotiation message version =>
    s!"{message}: expected sub-negotiation version " ++ Hex.tag version
  | .described text => text

/-- Why the value of a field is refused. -/
inductive Reason where
  /-- The registry of the field has no such code point. -/
  | unknownValue (code : Nat)
  | unknownStatus (status : UInt8)
  | notAFlag (byte : UInt8)
  | empty
  | zeroByte (index : Nat)
  | tooLong (length limit : Nat)
  | payloadTooLong (length limit : Nat)
  | lengthOutside (length limit : Nat)
  | outside (value limit : Nat)
  | exceeds (value limit : Nat)
  | zeroLength
  | zeroBacklog
  | notAdvertisable
  /-- A record declares fewer bytes than its own header has. -/
  | shorterThanHeader (length header : Nat)
  | recordTooLong (size : Nat)
  | blockTooLong (size limit : Nat)
  /-- The field is settable once and holds another value; both are given as text. -/
  | conflict (held offered : String)
  | notAllowed (mode : Mode)
  | wrongEnvelope (held expected : Mode)
  /-- A record offered as opaque has a meaning. -/
  | interpreted (kind : UInt16) (name : String)
  /-- A record offered as opaque is a broken record of a known kind. -/
  | malformed (kind : UInt16) (fault : String)
  | described (text : String)
  deriving DecidableEq, Repr

def Reason.text : Reason → String
  | .unknownValue code => s!"unknown value {code}"
  | .unknownStatus status => "unknown status byte " ++ Hex.tag status
  | .notAFlag byte => s!"availability must be 0 or 1, got {byte.toNat}"
  | .empty => "must not be empty"
  | .zeroByte index => s!"contains a zero byte at index {index}"
  | .tooLong length limit => s!"{length} bytes exceeds {limit}"
  | .payloadTooLong length limit => s!"payload of {length} bytes exceeds {limit}"
  | .lengthOutside length limit => s!"length {length} outside 1..={limit}"
  | .outside value limit => s!"{value} outside 1..={limit}"
  | .exceeds value limit => s!"{value} exceeds {limit}"
  | .zeroLength => "must be at least 1"
  | .zeroBacklog => "backlog must be at least 1"
  | .notAdvertisable => "no-acceptable (0xff) cannot be advertised"
  | .shorterThanHeader length header => s!"{length} is shorter than the {header}-byte header"
  | .recordTooLong size => s!"record of {size} bytes"
  | .blockTooLong size limit => s!"{size} bytes of options exceeds {limit}"
  | .conflict held offered => s!"already set to {held}, refusing conflicting {offered}"
  | .notAllowed mode => s!"not allowed in {Named.name mode} mode"
  | .wrongEnvelope held expected =>
    s!"{Named.name held} option set cannot travel in a {Named.name expected} envelope"
  | .interpreted kind name => s!"kind {kind.toNat} payload decodes as {name}"
  | .malformed kind fault => s!"kind {kind.toNat} payload is malformed: {fault}"
  | .described text => text

/-- A failure to read, write or accept something. -/
inductive Error where
  /-- Fewer bytes than needed: of the input, or of the room for the output. -/
  | truncated (need available : Nat) (place : Place)
  | badVersion (major minor : UInt8) (rule : VersionRule)
  | badAddressType (tag : UInt8)
  | invalidField (field : String) (reason : Reason)
  | allocationFailure (requested : Nat)
  | unspecified (context : String)
  deriving DecidableEq, Repr

namespace Error

/-- The text of an error. -/
def message : Error → String
  | .truncated need available place =>
    s!"Truncated: need {need} bytes, {available} available (context: {place.text})"
  | .badVersion major minor rule =>
    s!"Unsupported version {major.toNat}.{minor.toNat} ({rule.text})"
  | .badAddressType tag =>
    "Unknown address type " ++ Hex.tag tag ++
      ": expected 0x01 (IPv4), 0x03 (domain) or 0x04 (IPv6)"
  | .invalidField field reason => s!"Invalid field {field}: {reason.text}"
  | .allocationFailure requested => s!"Allocation of {requested} bytes failed"
  | .unspecified context => s!"Unspecified codec failure: {context}"

/-- The number that stands for the kind of an error. -/
def code : Error → Int
  | .unspecified .. => -1
  | .truncated .. => -2
  | .badVersion .. => -3
  | .badAddressType .. => -4
  | .invalidField .. => -5
  | .allocationFailure .. => -6

/-- More bytes could still turn this failure into a success. -/
def isTruncated : Error → Bool
  | .truncated .. => true
  | _ => false

/-- A value was refused, whatever the number of bytes. -/
def isInvalidField : Error → Bool
  | .invalidField .. => true
  | _ => false

/-- The field holds `held` and is settable once, so `offered` is refused. -/
def conflict (field held offered : String) : Error :=
  .invalidField field (.conflict held offered)

/-- The field may not appear in this kind of envelope. -/
def notAllowed (field : String) (mode : Mode) : Error :=
  .invalidField field (.notAllowed mode)

end Error

end Socks6
