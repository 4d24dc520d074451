/-
# Socks6.OptionSet.Change — building a set step by step

Every way to change a set of options is a value of `Change`.  All but one of them
apply an option, some after a check of their own; selecting a method is not an
option, since it travels in the header of its envelope.
-/
import Socks6.OptionSet

namespace Socks6

/-- A change of a set of options. -/
inductive Change where
  | tos (leg : Leg) (value : UInt8)
  | fastOpen (leg : Leg) (payloadSize : UInt16)
  | multipath (leg : Leg) (available : Bool)
  | scheduler (leg : Leg) (s : Scheduler)
  | backlog (leg : Leg) (n : UInt16)
  | requestSession
  | sessionId (id : SessionId)
  | sessionOk
  | sessionRejected
  | teardown
  | untrusted
  | requestWindow (size : UInt32)
  | spendToken (token : UInt32)
  | advertiseWindow (base size : UInt32)
  | expenditureReply (result : Expenditure)
  | advertiseMethod (m : AuthMethod)
  | initialDataLength (n : UInt16)
  | selectMethod (m : AuthMethod)
  | credentials (c : Credentials)
  | verdict (success : Verdict)
  | raw (frame : Frame)
  | apply (o : OptionRecord)
  deriving DecidableEq, Repr

namespace OptionSet

/-- The set after a change, or why the change is refused. -/
def change (s : OptionSet) : Change → Except Error OptionSet
  | .tos leg value => s.apply (.stack ⟨leg, .tos value⟩)
  | .fastOpen leg size => s.apply (.stack ⟨leg, .fastOpen size⟩)
  | .multipath leg available => s.apply (.stack ⟨leg, .multipath available⟩)
  | .scheduler leg sched => s.apply (.stack ⟨leg, .scheduler sched⟩)
  | .backlog leg n => s.apply (.stack ⟨leg, .backlog n⟩)
  | .requestSession => s.apply (.session (.state .request))
  | .sessionId id => s.apply (.session (.state (.id id)))
  | .sessionOk => s.apply (.session (.state .ok))
  | .sessionRejected => s.apply (.session (.state .rejected))
  | .teardown => s.apply (.session .teardown)
  | .untrusted => s.apply (.session .untrusted)
  | .requestWindow size => s.apply (.token (.windowRequest size))
  | .spendToken token => s.apply (.token (.expenditure token))
  | .advertiseWindow base size => do
    let window ← TokenWindow.ofSize base size
    s.apply (.token (.window window))
  | .expenditureReply result => s.apply (.token (.expenditureReply result))
  | .advertiseMethod m => s.apply (.advertisement ⟨0, [m]⟩)
  | .initialDataLength n =>
    if n = 0 then .error (.invalidField "initial data length" .zeroLength)
    else s.apply (.advertisement ⟨n, []⟩)
  | .selectMethod m => s.select m
  | .credentials c => s.apply (.authData (.credentials c))
  | .verdict success => s.apply (.authData (.verdict success))
  | .raw frame => s.apply (.raw frame)
  | .apply o => s.apply o

/-- Makes a change if it is accepted; a refused change leaves the set as it was,
and its error is the answer. -/
def attempt (s : OptionSet) (c : Change) : Except Error Unit × OptionSet :=
  match s.change c with
  | .ok t => (.ok (), t)
  | .error e => (.error e, s)

/-- The set after a run of changes, refused ones left out. -/
def run (s : OptionSet) (cs : List Change) : OptionSet :=
  cs.foldl (fun t c => (t.attempt c).2) s

end OptionSet

end Socks6
