/-
# Socks6.Head — what stands before the options

Every envelope opens with the version and a code.  A request and an operation
reply go on with a port and an address, an authentication reply with the method
that was selected.
-/
import Socks6.Address
import Socks6.Auth.Method
import Socks6.Version

namespace Socks6

/-- What a client asks for. -/
inductive RequestCode where
  | noOp
  | connect
  | bind
  | udpAssociate
  deriving DecidableEq, Repr

instance : Coded RequestCode where
  members := [.noOp, .connect, .bind, .udpAssociate]
  name
    | .noOp => "NoOp"
    | .connect => "Connect"
    | .bind => "Bind"
    | .udpAssociate => "UdpAssociate"
  code
    | .noOp => 0
    | .connect => 1
    | .bind => 2
    | .udpAssociate => 3

/-- The outcome of authentication. -/
inductive AuthReplyCode where
  | success
  | failure
  deriving DecidableEq, Repr

instance : Coded AuthReplyCode where
  members := [.success, .failure]
  name
    | .success => "Success"
    | .failure => "Failure"
  code
    | .success => 0
    | .failure => 1

/-- The outcome of an operation. -/
inductive OperationReplyCode where
  | success
  | failure
  | notAllowed
  | netUnreachable
  | hostUnreachable
  | connectionRefused
  | ttlExpired
  | commandNotSupported
  | addressNotSupported
  | timeout
  deriving DecidableEq, Repr

instance : Coded OperationReplyCode where
  members := [.success, .failure, .notAllowed, .netUnreachable, .hostUnreachable,
    .connectionRefused, .ttlExpired, .commandNotSupported, .addressNotSupported, .timeout]
  name
    | .success => "Success"
    | .failure => "Failure"
    | .notAllowed => "NotAllowed"
    | .netUnreachable => "NetUnreachable"
    | .hostUnreachable => "HostUnreachable"
    | .connectionRefused => "ConnectionRefused"
    | .ttlExpired => "TtlExpired"
    | .commandNotSupported => "CommandNotSupported"
    | .addressNotSupported => "AddressNotSupported"
    | .timeout => "Timeout"
  code
    | .success => 0
    | .failure => 1
    | .notAllowed => 2
    | .netUnreachable => 3
    | .hostUnreachable => 4
    | .connectionRefused => 5
    | .ttlExpired => 6
    | .commandNotSupported => 7
    | .addressNotSupported => 8
    | .timeout => 9

def OperationReplyCode.isSuccess (code : OperationReplyCode) : Bool := code = .success

/-- What stands before the options of an envelope. -/
inductive Head where
  | request (code : RequestCode) (port : UInt16) (address : Address)
  | authReply (code : AuthReplyCode) (method : AuthMethod)
  | operationReply (code : OperationReplyCode) (initialDataOffset port : UInt16)
      (address : Address)
  deriving DecidableEq, Repr

namespace Head

def mode : Head → Mode
  | .request .. => .request
  | .authReply .. => .authReply
  | .operationReply .. => .operationReply

def size : Head → Nat
  | .request _ _ address => Version.size + 1 + 2 + address.size
  | .authReply _ _ => Version.size + 1 + 1
  | .operationReply _ _ _ address => Version.size + 1 + 2 + 2 + address.size

def write (h : Head) : CursorM Unit := do
  Version.write
  match h with
  | .request code port address =>
    CursorM.writeU8 (Coded.byte code)
    CursorM.writeU16 port
    address.write
  | .authReply code method =>
    CursorM.writeU8 (Coded.byte code)
    CursorM.writeU8 method.byte
  | .operationReply code initialDataOffset port address =>
    CursorM.writeU8 (Coded.byte code)
    CursorM.writeU16 initialDataOffset
    CursorM.writeU16 port
    address.write

/-- Reads the head of an envelope of a known kind. -/
def read (mode : Mode) : CursorM Head := do
  let _ ← Version.read
  match mode with
  | .request =>
    let code ← CursorM.readCoded RequestCode "request code"
    let port ← CursorM.readU16
    return .request code port (← Address.read)
  | .authReply =>
    let code ← CursorM.readCoded AuthReplyCode "authentication reply code"
    return .authReply code (AuthMethod.ofByte (← CursorM.readU8))
  | .operationReply =>
    let code ← CursorM.readCoded OperationReplyCode "operation reply code"
    let initialDataOffset ← CursorM.readU16
    let port ← CursorM.readU16
    return .operationReply code initialDataOffset port (← Address.read)

def text : Head → String
  | .request code port address =>
    s!"{Named.name code} request for {address.text}:{port.toNat}"
  | .authReply code method =>
    s!"{Named.name code} authentication reply, method {method.text}"
  | .operationReply code _ port address =>
    s!"{Named.name code} operation reply from {address.text}:{port.toNat}"

end Head

end Socks6
