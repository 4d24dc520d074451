/-
# Socks6.Proofs.Facts — what a set of options says

A set of options keeps its content in some twenty fields, most of them slots that
are settable once.  Here the same content is seen as a set of *facts*: one
property on one leg, one offered method, one identifier of a session.  An option
states a list of facts (`OptionRecord.facts`), a set holds facts
(`OptionSet.Holds`), and every fact has a topic, of which a set holds at most one
fact (`OptionSet.holds_unique`).

For each of the five groups there are two lemmas about adding an option.  If it
is added, the group holds what it held and what the option states; and it is
added if its values are in range and nothing is held on its topics that differs
from it.  So the order in which fields are looked at, and which of them are
shared by two options, is dealt with here and nowhere else.
-/
import Mathlib.Data.List.Sort
import Socks6.OptionSet

namespace Socks6

theorem bind_eq_ok {α β : Type} {x : Except Error α} {f : α → Except Error β} {b : β} :
    x >>= f = .ok b ↔ ∃ a, x = .ok a ∧ f a = .ok b := by
  rcases x with e | a
  · constructor
    · intro h
      cases h
    · intro taken
      obtain ⟨_, h, -⟩ := taken
      cases h
  · constructor
    · intro h
      exact ⟨a, rfl, h⟩
    · intro taken
      obtain ⟨_, eq, h⟩ := taken
      cases eq
      exact h

theorem andThen_eq_ok {β : Type} {x : Except Error Unit} {f : Unit → Except Error β} {b : β} :
    x >>= f = .ok b ↔ x = .ok () ∧ f () = .ok b := by
  rw [bind_eq_ok]
  constructor
  · intro taken
    obtain ⟨_, h, hf⟩ := taken
    exact ⟨h, hf⟩
  · intro taken
    obtain ⟨h, hf⟩ := taken
    exact ⟨(), h, hf⟩

theorem exists_bind {α β : Type} {x : Except Error α} {f : α → Except Error β}
    (hx : ∃ a, x = .ok a) (hf : ∀ a, ∃ b, f a = .ok b) : ∃ b, x >>= f = .ok b := by
  obtain ⟨a, ha⟩ := hx
  obtain ⟨b, hb⟩ := hf a
  exact ⟨b, bind_eq_ok.mpr ⟨a, ha, hb⟩⟩

theorem pure_eq_ok {α : Type} {a b : α} : (pure a : Except Error α) = .ok b ↔ a = b :=
  Except.ok.injEq a b ▸ Iff.rfl

/-- What two attempts give is the same if they give the same results, whatever
their errors. -/
theorem toOption_congr {ε ε' α : Type} {x : Except ε α} {y : Except ε' α}
    (h : ∀ a, x = .ok a ↔ y = .ok a) : x.toOption = y.toOption := by
  rcases x with e | a
  · rcases y with e' | b
    · rfl
    · cases (h b).mpr rfl
  · rw [(h a).mp rfl]
    rfl

/-! ## Slots and legs -/

namespace Slot

variable {α : Type} [DecidableEq α] [Shown α] {field : String} {slot r : Option α} {value : α}

theorem check_eq_ok :
    check field slot value = .ok () ↔ ∀ held, slot = some held → held = value := by
  unfold check
  cases slot with
  | none => simp
  | some held => by_cases same : held = value <;> simp [same]

theorem merge_eq_ok :
    merge field slot value = .ok r ↔
      (∀ held, slot = some held → held = value) ∧ some value = r := by
  rw [merge, andThen_eq_ok, check_eq_ok, pure_eq_ok]

theorem eq_some_of_merge (h : merge field slot value = .ok r) (v : α) :
    r = some v ↔ slot = some v ∨ v = value := by
  obtain ⟨free, rfl⟩ := merge_eq_ok.mp h
  constructor
  · intro eq
    cases eq
    exact .inr rfl
  · rintro (held | rfl)
    · rw [free v held]
    · rfl

end Slot

/-- One leg of a relayed connection. -/
inductive Side where
  | clientProxy
  | proxyRemote
  deriving DecidableEq, Repr

/-- The legs that an option is about, one by one. -/
def Leg.sides : Leg → List Side
  | .clientProxy => [.clientProxy]
  | .proxyRemote => [.proxyRemote]
  | .both => [.clientProxy, .proxyRemote]

/-- What an option about one leg alone says of its legs. -/
def Side.leg : Side → Leg
  | .clientProxy => .clientProxy
  | .proxyRemote => .proxyRemote

@[simp] theorem Side.sides_leg (side : Side) : side.leg.sides = [side] := by
  cases side <;> rfl

namespace Legs

variable {α : Type} [DecidableEq α] [Shown α] {field : String} {l l' : Legs α} {leg : Leg} {v : α}

/-- The value on one leg. -/
def value (l : Legs α) : Side → Option α
  | .clientProxy => l.clientProxy
  | .proxyRemote => l.proxyRemote

omit [DecidableEq α] [Shown α] in
theorem ext_value (h : ∀ side, l.value side = l'.value side) : l = l' := by
  obtain ⟨near, far⟩ := l
  obtain ⟨near', far'⟩ := l'
  have first : near = near' := h .clientProxy
  have second : far = far' := h .proxyRemote
  rw [first, second]

theorem value_of_merge (h : l.merge field leg v = .ok l') (side : Side) (w : α) :
    l'.value side = some w ↔ l.value side = some w ∨ side ∈ leg.sides ∧ w = v := by
  cases leg with
  | clientProxy =>
      obtain ⟨slot, merged, eq⟩ := bind_eq_ok.mp h
      obtain rfl := pure_eq_ok.mp eq
      cases side with
      | clientProxy => simpa [value, Leg.sides] using Slot.eq_some_of_merge merged w
      | proxyRemote => simp [value, Leg.sides]
  | proxyRemote =>
      obtain ⟨slot, merged, eq⟩ := bind_eq_ok.mp h
      obtain rfl := pure_eq_ok.mp eq
      cases side with
      | clientProxy => simp [value, Leg.sides]
      | proxyRemote => simpa [value, Leg.sides] using Slot.eq_some_of_merge merged w
  | both =>
      obtain ⟨_, near, h⟩ := bind_eq_ok.mp h
      obtain ⟨_, far, eq⟩ := bind_eq_ok.mp h
      obtain rfl := pure_eq_ok.mp eq
      have filled : ∀ slot, Slot.check field slot v = .ok () →
          Slot.merge field slot v = .ok (some v) :=
        fun slot free => Slot.merge_eq_ok.mpr ⟨Slot.check_eq_ok.mp free, rfl⟩
      cases side with
      | clientProxy => simpa [value, Leg.sides] using Slot.eq_some_of_merge (filled _ near) w
      | proxyRemote => simpa [value, Leg.sides] using Slot.eq_some_of_merge (filled _ far) w

theorem exists_merge (free : ∀ side ∈ leg.sides, ∀ w, l.value side = some w → w = v) :
    ∃ l', l.merge field leg v = .ok l' := by
  have near := free .clientProxy
  have far := free .proxyRemote
  cases leg with
  | clientProxy =>
      exact exists_bind ⟨_, Slot.merge_eq_ok.mpr ⟨near (by simp [Leg.sides]), rfl⟩⟩
        fun _ => ⟨_, rfl⟩
  | proxyRemote =>
      exact exists_bind ⟨_, Slot.merge_eq_ok.mpr ⟨far (by simp [Leg.sides]), rfl⟩⟩
        fun _ => ⟨_, rfl⟩
  | both =>
      exact exists_bind ⟨(), Slot.check_eq_ok.mpr (near (by simp [Leg.sides]))⟩ fun _ =>
        exists_bind ⟨(), Slot.check_eq_ok.mpr (far (by simp [Leg.sides]))⟩ fun _ => ⟨_, rfl⟩

end Legs

/-! ## Facts -/

/-- One thing that an option says. -/
inductive Fact where
  | stack (side : Side) (p : StackProperty)
  | token (o : TokenOption)
  | initialDataLength (n : UInt16)
  | method (m : AuthMethod)
  | authData (d : AuthData)
  | session (s : SessionSignal)
  deriving DecidableEq, Repr

/-- What a fact is about.  A set of options holds at most one fact on each topic. -/
inductive Topic where
  | stack (side : Side) (level : StackLevel) (code : UInt8)
  | token (type : TokenOptionType)
  | initialDataLength
  | method (m : AuthMethod)
  | credentials
  | verdict
  | sessionState
  | teardown
  | untrusted
  deriving DecidableEq, Repr

def Fact.topic : Fact → Topic
  | .stack side p => .stack side p.level p.code
  | .token o => .token o.type
  | .initialDataLength _ => .initialDataLength
  | .method m => .method m
  | .authData (.credentials _) => .credentials
  | .authData (.verdict _) => .verdict
  | .session (.state _) => .sessionState
  | .session .teardown => .teardown
  | .session .untrusted => .untrusted

namespace OptionRecord

/-- What an option says.  A length of zero says nothing, and no-authentication
is always offered. -/
def facts : OptionRecord → List Fact
  | .stack s => s.leg.sides.map (.stack · s.property)
  | .advertisement a =>
    (if a.initialDataLength = 0 then [] else [.initialDataLength a.initialDataLength]) ++
      a.emitted.map .method
  | .authData d => [.authData d]
  | .session s => [.session s]
  | .token o => [.token o]
  | .raw _ => []

theorem stack_mem_facts {x : StackSetting} {side : Side} {p : StackProperty} :
    .stack side p ∈ (stack x).facts ↔ side ∈ x.leg.sides ∧ p = x.property := by
  simp only [facts, List.mem_map, Fact.stack.injEq]
  constructor
  · intro h
    obtain ⟨_, on, rfl, rfl⟩ := h
    exact ⟨on, rfl⟩
  · intro h
    obtain ⟨on, rfl⟩ := h
    exact ⟨side, on, rfl, rfl⟩

theorem initialDataLength_mem_facts {a : Advertisement} {n : UInt16} :
    .initialDataLength n ∈ (advertisement a).facts ↔ n ≠ 0 ∧ n = a.initialDataLength := by
  by_cases zero : a.initialDataLength = 0
  · simp [facts, zero]
  · simp only [facts, zero, if_false, List.mem_append, List.mem_singleton, List.mem_map,
      Fact.initialDataLength.injEq, reduceCtorEq, and_false, exists_false, or_false]
    refine ⟨?_, And.right⟩
    rintro rfl
    exact ⟨zero, rfl⟩

theorem method_mem_facts {a : Advertisement} {m : AuthMethod} :
    .method m ∈ (advertisement a).facts ↔ m ∈ a.emitted := by
  by_cases zero : a.initialDataLength = 0 <;> simp [facts, zero]

/-- The values of the option are in range. -/
def InRange (o : OptionRecord) : Prop := ∀ r ∈ o.validate?, r = .ok ()

/-- The frame that an option passes on. -/
def frames : OptionRecord → List Frame
  | .raw frame => [frame]
  | _ => []

end OptionRecord

/-! ## The groups -/

namespace StackGroup

variable {g g' : StackGroup} {s : StackSetting} {side : Side} {p q : StackProperty}

/-- The property is set on the leg. -/
def Holds (g : StackGroup) (side : Side) : StackProperty → Prop
  | .tos value => g.tos.value side = some value
  | .fastOpen size => g.fastOpen.value side = some size
  | .multipath flag => g.multipath.value side = some flag
  | .scheduler how => g.scheduler.value side = some how
  | .backlog n => g.backlog.value side = some n

theorem holds_unique (hp : g.Holds side p) (hq : g.Holds side q) (level : p.level = q.level)
    (code : p.code = q.code) : p = q := by
  cases p <;> cases q <;> simp_all [Holds, StackProperty.level, StackProperty.code]

theorem ext_holds (h : ∀ side p, g.Holds side p ↔ g'.Holds side p) : g = g' := by
  obtain ⟨tos, fastOpen, multipath, scheduler, backlog⟩ := g
  obtain ⟨tos', fastOpen', multipath', scheduler', backlog'⟩ := g'
  obtain rfl : tos = tos' := Legs.ext_value fun side => Option.ext fun v => h side (.tos v)
  obtain rfl : fastOpen = fastOpen' :=
    Legs.ext_value fun side => Option.ext fun v => h side (.fastOpen v)
  obtain rfl : multipath = multipath' :=
    Legs.ext_value fun side => Option.ext fun v => h side (.multipath v)
  obtain rfl : scheduler = scheduler' :=
    Legs.ext_value fun side => Option.ext fun v => h side (.scheduler v)
  obtain rfl : backlog = backlog' :=
    Legs.ext_value fun side => Option.ext fun v => h side (.backlog v)
  rfl

theorem holds_of_merge (h : g.merge s = .ok g') :
    s.property.validate = .ok () ∧
      ∀ side p, g'.Holds side p ↔ g.Holds side p ∨ side ∈ s.leg.sides ∧ p = s.property := by
  obtain ⟨leg, property⟩ := s
  obtain ⟨_, valid, h⟩ := bind_eq_ok.mp h
  refine ⟨valid, fun side p => ?_⟩
  cases property
  all_goals
    obtain ⟨l, merged, eq⟩ := bind_eq_ok.mp h
    obtain rfl := pure_eq_ok.mp eq
    cases p <;> simp [Holds, Legs.value_of_merge merged]

theorem exists_merge (valid : s.property.validate = .ok ())
    (free : ∀ side ∈ s.leg.sides, ∀ p, g.Holds side p → p.level = s.property.level →
      p.code = s.property.code → p = s.property) :
    ∃ g', g.merge s = .ok g' := by
  obtain ⟨leg, property⟩ := s
  cases property with
  | tos value =>
      exact exists_bind ⟨(), valid⟩ fun _ => exists_bind
        (Legs.exists_merge fun side on w held =>
          StackProperty.tos.inj (free side on (.tos w) held rfl rfl)) fun _ => ⟨_, rfl⟩
  | fastOpen size =>
      exact exists_bind ⟨(), valid⟩ fun _ => exists_bind
        (Legs.exists_merge fun side on w held =>
          StackProperty.fastOpen.inj (free side on (.fastOpen w) held rfl rfl)) fun _ => ⟨_, rfl⟩
  | multipath flag =>
      exact exists_bind ⟨(), valid⟩ fun _ => exists_bind
        (Legs.exists_merge fun side on w held =>
          StackProperty.multipath.inj (free side on (.multipath w) held rfl rfl)) fun _ => ⟨_, rfl⟩
  | scheduler how =>
      exact exists_bind ⟨(), valid⟩ fun _ => exists_bind
        (Legs.exists_merge fun side on w held =>
          StackProperty.scheduler.inj (free side on (.scheduler w) held rfl rfl)) fun _ => ⟨_, rfl⟩
  | backlog n =>
      exact exists_bind ⟨(), valid⟩ fun _ => exists_bind
        (Legs.exists_merge fun side on w held =>
          StackProperty.backlog.inj (free side on (.backlog w) held rfl rfl)) fun _ => ⟨_, rfl⟩

end StackGroup

namespace TokenGroup

variable {g g' : TokenGroup} {o p : TokenOption}

def Holds (g : TokenGroup) : TokenOption → Prop
  | .windowRequest size => g.windowRequest = some size
  | .window w => g.window = some w
  | .expenditure token => g.token = some token
  | .expenditureReply result => g.expenditureReply = some result

theorem holds_unique (ho : g.Holds o) (hp : g.Holds p) (type : o.type = p.type) : o = p := by
  cases o <;> cases p <;> simp_all [Holds, TokenOption.type]

theorem ext_holds (h : ∀ o, g.Holds o ↔ g'.Holds o) : g = g' := by
  obtain ⟨windowRequest, token, window, reply⟩ := g
  obtain ⟨windowRequest', token', window', reply'⟩ := g'
  obtain rfl : windowRequest = windowRequest' := Option.ext fun v => h (.windowRequest v)
  obtain rfl : token = token' := Option.ext fun v => h (.expenditure v)
  obtain rfl : window = window' := Option.ext fun v => h (.window v)
  obtain rfl : reply = reply' := Option.ext fun v => h (.expenditureReply v)
  rfl

theorem holds_of_merge (h : g.merge o = .ok g') :
    o.validate = .ok () ∧ ∀ p, g'.Holds p ↔ g.Holds p ∨ p = o := by
  obtain ⟨_, valid, h⟩ := bind_eq_ok.mp h
  refine ⟨valid, fun p => ?_⟩
  cases o
  all_goals
    obtain ⟨slot, merged, eq⟩ := bind_eq_ok.mp h
    obtain rfl := pure_eq_ok.mp eq
    cases p <;> simp [Holds, Slot.eq_some_of_merge merged]

theorem exists_merge (valid : o.validate = .ok ())
    (free : ∀ p, g.Holds p → p.type = o.type → p = o) : ∃ g', g.merge o = .ok g' := by
  refine exists_bind ⟨(), valid⟩ fun _ => ?_
  cases o with
  | windowRequest size =>
      have same := fun held eq => TokenOption.windowRequest.inj (free (.windowRequest held) eq rfl)
      exact exists_bind ⟨_, Slot.merge_eq_ok.mpr ⟨same, rfl⟩⟩ fun _ => ⟨_, rfl⟩
  | window w =>
      have same := fun held eq => TokenOption.window.inj (free (.window held) eq rfl)
      exact exists_bind ⟨_, Slot.merge_eq_ok.mpr ⟨same, rfl⟩⟩ fun _ => ⟨_, rfl⟩
  | expenditure token =>
      have same := fun held eq => TokenOption.expenditure.inj (free (.expenditure held) eq rfl)
      exact exists_bind ⟨_, Slot.merge_eq_ok.mpr ⟨same, rfl⟩⟩ fun _ => ⟨_, rfl⟩
  | expenditureReply result =>
      have same := fun held eq =>
        TokenOption.expenditureReply.inj (free (.expenditureReply held) eq rfl)
      exact exists_bind ⟨_, Slot.merge_eq_ok.mpr ⟨same, rfl⟩⟩ fun _ => ⟨_, rfl⟩

end TokenGroup

namespace SessionGroup

variable {g g' : SessionGroup} {s u : SessionSignal}

def Holds (g : SessionGroup) : SessionSignal → Prop
  | .state s => g.state = some s
  | .teardown => g.teardown = true
  | .untrusted => g.untrusted = true

theorem ext_holds (h : ∀ s, g.Holds s ↔ g'.Holds s) : g = g' := by
  obtain ⟨state, teardown, untrusted⟩ := g
  obtain ⟨state', teardown', untrusted'⟩ := g'
  obtain rfl : state = state' := Option.ext fun v => h (.state v)
  obtain rfl : teardown = teardown' := Bool.eq_iff_iff.mpr (h .teardown)
  obtain rfl : untrusted = untrusted' := Bool.eq_iff_iff.mpr (h .untrusted)
  rfl

theorem holds_of_merge (h : g.merge s = .ok g') (u : SessionSignal) :
    g'.Holds u ↔ g.Holds u ∨ u = s := by
  cases s with
  | state state =>
      obtain ⟨slot, merged, eq⟩ := bind_eq_ok.mp h
      obtain rfl := pure_eq_ok.mp eq
      cases u <;> simp [Holds, Slot.eq_some_of_merge merged]
  | teardown =>
      cases h
      cases u <;> simp [Holds]
  | untrusted =>
      cases h
      cases u <;> simp [Holds]

theorem exists_merge (free : ∀ u, g.Holds u → (Fact.session u).topic = (Fact.session s).topic →
    u = s) : ∃ g', g.merge s = .ok g' := by
  cases s with
  | state state =>
      have same := fun held eq => SessionSignal.state.inj (free (.state held) eq rfl)
      exact exists_bind ⟨_, Slot.merge_eq_ok.mpr ⟨same, rfl⟩⟩ fun _ => ⟨_, rfl⟩
  | teardown => exact ⟨_, rfl⟩
  | untrusted => exact ⟨_, rfl⟩

end SessionGroup

namespace AuthDataGroup

variable {g g' : AuthDataGroup} {d e : AuthData}

def Holds (g : AuthDataGroup) : AuthData → Prop
  | .credentials c => g.credentials = some c
  | .verdict success => g.verdict = some success

theorem ext_holds (h : ∀ d, g.Holds d ↔ g'.Holds d) : g = g' := by
  obtain ⟨credentials, verdict⟩ := g
  obtain ⟨credentials', verdict'⟩ := g'
  obtain rfl : credentials = credentials' := Option.ext fun v => h (.credentials v)
  obtain rfl : verdict = verdict' := Option.ext fun v => h (.verdict v)
  rfl

theorem holds_of_merge (h : g.merge d = .ok g') :
    (OptionRecord.authData d).InRange ∧ ∀ e, g'.Holds e ↔ g.Holds e ∨ e = d := by
  cases d with
  | credentials c =>
      obtain ⟨_, valid, h⟩ := bind_eq_ok.mp h
      obtain ⟨slot, merged, eq⟩ := bind_eq_ok.mp h
      obtain rfl := pure_eq_ok.mp eq
      refine ⟨fun r hr => ?_, fun e => ?_⟩
      · cases hr
        exact valid
      · cases e <;> simp [Holds, Slot.eq_some_of_merge merged]
  | verdict success =>
      obtain ⟨slot, merged, eq⟩ := bind_eq_ok.mp h
      obtain rfl := pure_eq_ok.mp eq
      refine ⟨fun r hr => (by cases hr), fun e => ?_⟩
      cases e <;> simp [Holds, Slot.eq_some_of_merge merged]

theorem exists_merge (valid : (OptionRecord.authData d).InRange)
    (free : ∀ e, g.Holds e → (Fact.authData e).topic = (Fact.authData d).topic → e = d) :
    ∃ g', g.merge d = .ok g' := by
  cases d with
  | credentials c =>
      have same := fun held eq => AuthData.credentials.inj (free (.credentials held) eq rfl)
      exact exists_bind ⟨(), valid _ rfl⟩ fun _ =>
        exists_bind ⟨_, Slot.merge_eq_ok.mpr ⟨same, rfl⟩⟩ fun _ => ⟨_, rfl⟩
  | verdict success =>
      have same := fun held eq => AuthData.verdict.inj (free (.verdict held) eq rfl)
      exact exists_bind ⟨_, Slot.merge_eq_ok.mpr ⟨same, rfl⟩⟩ fun _ => ⟨_, rfl⟩

end AuthDataGroup

/-- Sets with the same members are equal: both are in ascending order. -/
theorem MethodSet.ext_mem {s t : MethodSet} (h : ∀ m, m ∈ s.toList ↔ m ∈ t.toList) : s = t := by
  obtain ⟨xs, ascending⟩ := s
  obtain ⟨ys, ascending'⟩ := t
  let below : AuthMethod → AuthMethod → Prop := fun a b => a.rank < b.rank
  have : Std.Irrefl below := ⟨fun a => Nat.lt_irrefl a.rank⟩
  have : Std.Antisymm below := ⟨fun a b less more => absurd more (Nat.lt_asymm less)⟩
  obtain rfl : xs = ys := List.Pairwise.eq_of_mem_iff (r := below) ascending ascending' h
  rfl

namespace MethodGroup

variable {g g' : MethodGroup} {a : Advertisement}

theorem merge_eq_ok :
    g.merge a = .ok g' ↔ a.validate = .ok () ∧ ∃ length,
      (if a.initialDataLength = 0 then .ok g.initialDataLength
        else Slot.merge "initial data length" g.initialDataLength a.initialDataLength) =
        .ok length ∧
      ⟨g.advertised.insertAll a.emitted, length, g.selected⟩ = g' := by
  rw [merge, andThen_eq_ok]
  refine and_congr_right fun _ => ?_
  by_cases zero : a.initialDataLength = 0
  · simp [zero, pure_eq_ok]
  · simp only [zero, if_false, bind_eq_ok, pure_eq_ok]

theorem holds_of_merge (h : g.merge a = .ok g') :
    a.validate = .ok () ∧ g'.selected = g.selected ∧
      (∀ n, g'.initialDataLength = some n ↔
        g.initialDataLength = some n ∨ n ≠ 0 ∧ n = a.initialDataLength) ∧
      ∀ m, m ∈ g'.advertised.toList ↔ m ∈ g.advertised.toList ∨ m ∈ a.emitted := by
  obtain ⟨valid, length, merged, rfl⟩ := merge_eq_ok.mp h
  refine ⟨valid, rfl, fun n => ?_, fun m => MethodSet.mem_insertAll.trans or_comm⟩
  split at merged
  · rename_i zero
    cases merged
    simp [zero]
  · rename_i positive
    rw [Slot.eq_some_of_merge merged n]
    refine or_congr_right ⟨?_, And.right⟩
    rintro rfl
    exact ⟨positive, rfl⟩

theorem exists_merge (valid : a.validate = .ok ())
    (free : a.initialDataLength ≠ 0 → ∀ n, g.initialDataLength = some n →
      n = a.initialDataLength) : ∃ g', g.merge a = .ok g' := by
  by_cases zero : a.initialDataLength = 0
  · exact ⟨_, merge_eq_ok.mpr ⟨valid, _, if_pos zero, rfl⟩⟩
  · refine ⟨_, merge_eq_ok.mpr ⟨valid, some a.initialDataLength,
      (if_neg zero).trans ?_, rfl⟩⟩
    exact Slot.merge_eq_ok.mpr ⟨free zero, rfl⟩

end MethodGroup

/-! ## Sets -/

namespace OptionSet

variable {s t : OptionSet} {f g : Fact}

/-- The set says so. -/
def Holds (s : OptionSet) : Fact → Prop
  | .stack side p => s.stack.Holds side p
  | .token o => s.tokens.Holds o
  | .initialDataLength n => s.methods.initialDataLength = some n
  | .method m => m ∈ s.methods.advertised.toList
  | .authData d => s.authData.Holds d
  | .session u => s.session.Holds u

/-- A set says one thing on each topic. -/
theorem holds_unique (hf : s.Holds f) (hg : s.Holds g) (topic : f.topic = g.topic) : f = g := by
  rcases f with ⟨side, p⟩ | o | n | m | (c | v) | (u | _ | _) <;>
    rcases g with ⟨side', q⟩ | o' | n' | m' | (c' | v') | (u' | _ | _) <;>
      try (cases topic; done)
  case stack.stack =>
    obtain ⟨rfl, level, code⟩ := Topic.stack.inj topic
    rw [StackGroup.holds_unique hf hg level code]
  case token.token => rw [TokenGroup.holds_unique hf hg (Topic.token.inj topic)]
  case initialDataLength.initialDataLength => rw [Option.some.inj (hf.symm.trans hg)]
  case method.method => rw [Topic.method.inj topic]
  case session.state.session.state => rw [Option.some.inj (hf.symm.trans hg)]
  case session.teardown.session.teardown => rfl
  case session.untrusted.session.untrusted => rfl
  case authData.credentials.authData.credentials => rw [Option.some.inj (hf.symm.trans hg)]
  case authData.verdict.authData.verdict => rw [Option.some.inj (hf.symm.trans hg)]

/-- What a set says, the frames it passes on and its selected method are all there is to it. -/
theorem ext_holds (mode : s.mode = t.mode) (selected : s.methods.selected = t.methods.selected)
    (raw : s.raw = t.raw) (h : ∀ f, s.Holds f ↔ t.Holds f) : s = t := by
  obtain ⟨_, stack, session, tokens, ⟨advertised, length, _⟩, authData, _⟩ := s
  obtain ⟨_, stack', session', tokens', ⟨advertised', length', _⟩, authData', _⟩ := t
  obtain rfl := mode
  obtain rfl := selected
  obtain rfl := raw
  obtain rfl : stack = stack' := StackGroup.ext_holds fun side p => h (.stack side p)
  obtain rfl : session = session' := SessionGroup.ext_holds fun u => h (.session u)
  obtain rfl : tokens = tokens' := TokenGroup.ext_holds fun o => h (.token o)
  obtain rfl : advertised = advertised' := MethodSet.ext_mem fun m => h (.method m)
  obtain rfl : length = length' := Option.ext fun n => h (.initialDataLength n)
  obtain rfl : authData = authData' := AuthDataGroup.ext_holds fun d => h (.authData d)
  rfl

end OptionSet

end Socks6
