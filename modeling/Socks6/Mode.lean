/-
# Socks6.Mode — the three kinds of envelope

A client sends a request, the proxy answers it with an authentication reply and
then with an operation reply.  The kind of envelope decides which options may
travel in it and how authentication data is read.
-/
import Socks6.Registry

namespace Socks6

/-- The kind of envelope that carries a set of options. -/
inductive Mode where
  | request
  | authReply
  | operationReply
  deriving DecidableEq, Repr

instance : Named Mode where
  members := [.request, .authReply, .operationReply]
  name
    | .request => "Request"
    | .authReply => "AuthReply"
    | .operationReply => "OperationReply"

/-- The envelope's name in running text. -/
def Mode.title : Mode → String
  | .request => "request"
  | .authReply => "authentication reply"
  | .operationReply => "operation reply"

end Socks6
