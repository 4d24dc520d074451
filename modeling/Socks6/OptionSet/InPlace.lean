/-
# Socks6.OptionSet.InPlace — changing a set where it stands

`OptionSet.change` makes a new set, so a change that is refused has nothing to
undo.  A set that is changed where it stands has no second copy: the change is a
sequence of checks and assignments, and what was assigned before a check fails
stays assigned.  Here each change is given as such a sequence, from the single
slot up to the set, in the order in which fields are checked and assigned.
-/
import Socks6.OptionSet.Change

namespace Socks6

/-- A part of something, which can be looked at and exchanged. -/
structure Part (σ τ : Type) where
  get : σ → τ
  put : σ → τ → σ
  /-- Putting back what was there changes nothing. -/
  put_get : ∀ s, put s (get s) = s := by intro s; rfl

/-- Changes something of the type `σ` where it stands, and may fail on the way. -/
abbrev UpdateM (σ : Type) := ExceptT Error (StateM σ)

namespace UpdateM

variable {σ τ : Type}

/-- What the update answers, and what it leaves. -/
def on (act : UpdateM σ Unit) (s : σ) : Except Error Unit × σ := StateT.run (ExceptT.run act) s

/-- Looks, and goes on if nothing is wrong. -/
def verify (wrong : σ → Except Error Unit) : UpdateM σ Unit := fun s => (wrong s, s)

/-- Assigns, and cannot fail. -/
def assign (f : σ → σ) : UpdateM σ Unit := fun s => (.ok (), f s)

/-- Updates a part.  What the part has become is there, whatever the answer. -/
def part (p : Part σ τ) (act : UpdateM τ Unit) : UpdateM σ Unit := fun s =>
  let (answer, t) := act.on (p.get s)
  (answer, p.put s t)

end UpdateM

open UpdateM

/-! ## The groups -/

section

variable {α : Type} [DecidableEq α] [Shown α]

def Slot.update (field : String) (value : α) : UpdateM (Option α) Unit := do
  verify fun slot => Slot.check field slot value
  assign fun _ => some value

/-- Sets the value on the legs that an option is about: for both of them, each is
checked before one is assigned. -/
def Legs.update (field : String) (leg : Leg) (value : α) : UpdateM (Legs α) Unit :=
  match leg with
  | .clientProxy =>
    part (.mk clientProxy fun l slot => { l with clientProxy := slot }) (Slot.update field value)
  | .proxyRemote =>
    part (.mk proxyRemote fun l slot => { l with proxyRemote := slot }) (Slot.update field value)
  | .both => do
    verify fun l => Slot.check field l.clientProxy value
    verify fun l => Slot.check field l.proxyRemote value
    assign fun l => { l with clientProxy := some value }
    assign fun l => { l with proxyRemote := some value }

end

def StackGroup.update (s : StackSetting) : UpdateM StackGroup Unit := do
  verify fun _ => s.property.validate
  let field := s.property.name
  match s.property with
  | .tos value => part (.mk tos fun g l => { g with tos := l }) (Legs.update field s.leg value)
  | .fastOpen size =>
    part (.mk fastOpen fun g l => { g with fastOpen := l }) (Legs.update field s.leg size)
  | .multipath flag =>
    part (.mk multipath fun g l => { g with multipath := l }) (Legs.update field s.leg flag)
  | .scheduler how =>
    part (.mk scheduler fun g l => { g with scheduler := l }) (Legs.update field s.leg how)
  | .backlog n => part (.mk backlog fun g l => { g with backlog := l }) (Legs.update field s.leg n)

def SessionGroup.update : SessionSignal → UpdateM SessionGroup Unit
  | .state s =>
    part (.mk state fun g slot => { g with state := slot }) (Slot.update "session state" s)
  | .teardown => assign fun g => { g with teardown := true }
  | .untrusted => assign fun g => { g with untrusted := true }

def TokenGroup.update (o : TokenOption) : UpdateM TokenGroup Unit := do
  verify fun _ => o.validate
  match o with
  | .windowRequest size =>
    part (.mk windowRequest fun g slot => { g with windowRequest := slot })
      (Slot.update o.name size)
  | .window w => part (.mk window fun g slot => { g with window := slot }) (Slot.update o.name w)
  | .expenditure token =>
    part (.mk TokenGroup.token fun g slot => { g with token := slot }) (Slot.update o.name token)
  | .expenditureReply result =>
    part (.mk expenditureReply fun g slot => { g with expenditureReply := slot })
      (Slot.update o.name result)

namespace MethodGroup

/-- Adds an advertisement: first its length, and then its methods. -/
def update (a : Advertisement) : UpdateM MethodGroup Unit := do
  verify fun _ => a.validate
  if a.initialDataLength ≠ 0 then
    part (.mk initialDataLength fun g slot => { g with initialDataLength := slot })
      (Slot.update "initial data length" a.initialDataLength)
  assign fun g => { g with advertised := g.advertised.insertAll a.emitted }

def reselect (m : AuthMethod) : UpdateM MethodGroup Unit := do
  verify fun g =>
    let held := if g.selected = .noAuth then none else some g.selected
    Slot.check "selected auth method" held m
  assign fun g => { g with selected := m }

end MethodGroup

def AuthDataGroup.update (d : AuthData) : UpdateM AuthDataGroup Unit :=
  match d with
  | .credentials c => do
    verify fun _ => c.validate
    part (.mk credentials fun g slot => { g with credentials := slot }) (Slot.update d.name c)
  | .verdict success =>
    part (.mk verdict fun g slot => { g with verdict := slot }) (Slot.update d.name success)

/-! ## The set -/

namespace OptionSet

def update (o : OptionRecord) : UpdateM OptionSet Unit := do
  verify fun s => unless s.allows o do throw (.notAllowed o.name s.mode)
  match o with
  | .stack x => part (.mk stack fun s g => { s with stack := g }) (StackGroup.update x)
  | .session x => part (.mk session fun s g => { s with session := g }) (SessionGroup.update x)
  | .token x => part (.mk tokens fun s g => { s with tokens := g }) (TokenGroup.update x)
  | .advertisement a => part (.mk methods fun s g => { s with methods := g }) (MethodGroup.update a)
  | .authData d => part (.mk authData fun s g => { s with authData := g }) (AuthDataGroup.update d)
  | .raw frame => do
    verify fun s => s.checkOpaque frame
    assign fun s => { s with raw := s.raw ++ [frame] }

def reselect (m : AuthMethod) : UpdateM OptionSet Unit := do
  verify fun s => unless s.mode = .authReply do throw (.notAllowed "selected auth method" s.mode)
  part (.mk methods fun s g => { s with methods := g }) (MethodGroup.reselect m)

end OptionSet

namespace Change

/-- What is asked of the values of a change before the set is looked at. -/
def validate : Change → Except Error Unit
  | .advertiseWindow _ size => TokenWindow.checkSize size
  | .initialDataLength n =>
    if n = 0 then .error (.invalidField "initial data length" .zeroLength) else .ok ()
  | _ => .ok ()

/-- The option that a change applies, or the method that it selects. -/
def demand : Change → OptionRecord ⊕ AuthMethod
  | .tos leg value => .inl (.stack ⟨leg, .tos value⟩)
  | .fastOpen leg size => .inl (.stack ⟨leg, .fastOpen size⟩)
  | .multipath leg available => .inl (.stack ⟨leg, .multipath available⟩)
  | .scheduler leg sched => .inl (.stack ⟨leg, .scheduler sched⟩)
  | .backlog leg n => .inl (.stack ⟨leg, .backlog n⟩)
  | .requestSession => .inl (.session (.state .request))
  | .sessionId id => .inl (.session (.state (.id id)))
  | .sessionOk => .inl (.session (.state .ok))
  | .sessionRejected => .inl (.session (.state .rejected))
  | .teardown => .inl (.session .teardown)
  | .untrusted => .inl (.session .untrusted)
  | .requestWindow size => .inl (.token (.windowRequest size))
  | .spendToken token => .inl (.token (.expenditure token))
  | .advertiseWindow base size => .inl (.token (.window ⟨base, size⟩))
  | .expenditureReply result => .inl (.token (.expenditureReply result))
  | .advertiseMethod m => .inl (.advertisement ⟨0, [m]⟩)
  | .initialDataLength n => .inl (.advertisement ⟨n, []⟩)
  | .selectMethod m => .inr m
  | .credentials c => .inl (.authData (.credentials c))
  | .verdict success => .inl (.authData (.verdict success))
  | .raw frame => .inl (.raw frame)
  | .apply o => .inl o

/-- Makes a change where the set stands. -/
def perform (c : Change) : UpdateM OptionSet Unit := do
  verify fun _ => c.validate
  match c.demand with
  | .inl o => OptionSet.update o
  | .inr m => OptionSet.reselect m

end Change

end Socks6
