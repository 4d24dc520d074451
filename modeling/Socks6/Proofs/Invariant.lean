/-
# Socks6.Proofs.Invariant — what the fields of a set can hold

The invariant of `Lawful`, read off field by field.  A set that begins empty, or
with what a block says, and is then changed in any way, populates no field that
its kind of envelope does not carry (`OptionSet.Confined`), and every value in it
lies in its domain (`OptionSet.InDomain`).  Its records may travel in its
envelope, its raw frames are uninterpreted there, and it stays a set for that
kind of envelope (`OptionSet.Sound`).

Nothing is shown here about one way of changing a set or another: a fact that a
lawful set holds is admissible, so it was legal and in range whoever stated it.
-/
import Socks6.Proofs.Description

namespace Socks6

/-! ## Values that pass their checks -/

theorem StackProperty.ne_zero_of_validate {n : UInt16}
    (valid : (StackProperty.backlog n).validate = .ok ()) : n ≠ 0 := by
  rintro rfl
  cases valid

theorem TokenWindow.bounds_of_checkSize {size : UInt32} (valid : checkSize size = .ok ()) :
    1 ≤ size.toNat ∧ size.toNat ≤ 2 ^ 31 := by
  unfold checkSize at valid
  split at valid
  · cases valid
  · rename_i inside
    obtain ⟨positive, small⟩ := not_or.mp inside
    have most : size.toNat ≤ maxSize.toNat := UInt32.le_iff_toNat_le.mp (UInt32.not_lt.mp small)
    have some : size.toNat ≠ 0 := fun zero => positive (UInt32.toNat_inj.mp zero)
    exact ⟨Nat.one_le_iff_ne_zero.mpr some, most⟩

/-- The string is not empty, and no byte of it is zero. -/
def ShortString.IsName (s : ShortString) : Prop := s.bytes ≠ [] ∧ ∀ b ∈ s.bytes, b ≠ 0

theorem Credentials.isName_of_validate {c : Credentials} (valid : c.validate = .ok ()) :
    c.username.IsName ∧ c.password.IsName := by
  obtain ⟨username, password⟩ := andThen_eq_ok.mp valid
  exact ⟨ShortString.checkName_eq_ok.mp username, ShortString.checkName_eq_ok.mp password⟩

/-! ## Groups that say nothing -/

theorem Legs.eq_empty {α : Type} [DecidableEq α] {l : Legs α}
    (none : ∀ side v, l.value side ≠ some v) : l = .empty := by
  refine Legs.ext_value fun side => ?_
  rw [Option.eq_none_iff_forall_ne_some.mpr (none side)]
  cases side <;> rfl

theorem StackGroup.eq_empty {g : StackGroup} (none : ∀ side p, ¬g.Holds side p) : g = .empty :=
  ext_holds fun side p =>
    iff_of_false (none side p) (OptionSet.not_holds_empty .request (.stack side p))

theorem TokenGroup.eq_empty {g : TokenGroup} (none : ∀ o, ¬g.Holds o) : g = .empty :=
  ext_holds fun o => iff_of_false (none o) (OptionSet.not_holds_empty .request (.token o))

theorem AuthDataGroup.eq_empty {g : AuthDataGroup} (none : ∀ d, ¬g.Holds d) : g = .empty :=
  ext_holds fun d => iff_of_false (none d) (OptionSet.not_holds_empty .request (.authData d))

namespace OptionSet

variable {s : OptionSet} {f : Fact}

/-! ## Fields that an envelope does not carry -/

/-- Nothing is populated that the set's kind of envelope does not carry. -/
def Confined (s : OptionSet) : Prop :=
  match s.mode with
  | .request =>
    s.stack.multipath = .empty ∧
    s.session.state ≠ some .ok ∧ s.session.state ≠ some .rejected ∧ s.session.untrusted = false ∧
    s.tokens.window = none ∧ s.tokens.expenditureReply = none ∧
    s.methods.selected = .noAuth ∧ s.authData.verdict = none
  | .authReply =>
    s.stack = .empty ∧
    s.session.state ≠ some .request ∧ s.session.teardown = false ∧
    s.tokens.windowRequest = none ∧ s.tokens.token = none ∧
    s.methods.advertised = .empty ∧ s.methods.initialDataLength = none ∧
    s.authData.credentials = none
  | .operationReply =>
    s.session.state = none ∧ s.session.teardown = false ∧
    s.tokens = .empty ∧ s.methods = .empty ∧ s.authData = .empty

theorem Lawful.not_holds (h : s.Lawful) {mode : Mode} (kind : s.mode = mode) (f : Fact)
    (illegal : f.option.allowedIn mode = false) : ¬s.Holds f := by
  intro held
  have allowed := (h.facts f held).option.allowed
  rw [kind, illegal] at allowed
  cases allowed

theorem Lawful.confined (h : s.Lawful) : s.Confined := by
  unfold Confined
  split
  · rename_i kind
    have silent := h.not_holds kind
    refine ⟨Legs.eq_empty fun side v => ?_, ?_, ?_, Bool.eq_false_iff.mpr ?_,
      Option.eq_none_iff_forall_ne_some.mpr fun w => ?_,
      Option.eq_none_iff_forall_ne_some.mpr fun result => ?_,
      h.selected.resolve_right (by rw [kind]; nofun),
      Option.eq_none_iff_forall_ne_some.mpr fun success => ?_⟩
    · exact silent (.stack side (.multipath v)) rfl
    · exact silent (.session (.state .ok)) rfl
    · exact silent (.session (.state .rejected)) rfl
    · exact silent (.session .untrusted) rfl
    · exact silent (.token (.window w)) rfl
    · exact silent (.token (.expenditureReply result)) rfl
    · exact silent (.authData (.verdict success)) rfl
  · rename_i kind
    have silent := h.not_holds kind
    refine ⟨StackGroup.eq_empty fun side p => silent (.stack side p) ?_, ?_,
      Bool.eq_false_iff.mpr ?_,
      Option.eq_none_iff_forall_ne_some.mpr fun size => ?_,
      Option.eq_none_iff_forall_ne_some.mpr fun token => ?_,
      MethodSet.ext_mem fun m => iff_of_false ?_ List.not_mem_nil,
      Option.eq_none_iff_forall_ne_some.mpr fun n => ?_,
      Option.eq_none_iff_forall_ne_some.mpr fun c => ?_⟩
    · cases p <;> rfl
    · exact silent (.session (.state .request)) rfl
    · exact silent (.session .teardown) rfl
    · exact silent (.token (.windowRequest size)) rfl
    · exact silent (.token (.expenditure token)) rfl
    · exact silent (.method m) rfl
    · exact silent (.initialDataLength n) rfl
    · exact silent (.authData (.credentials c)) rfl
  · rename_i kind
    have silent := h.not_holds kind
    have unselected := h.selected.resolve_right (by rw [kind]; nofun)
    have unlisted : s.methods.advertised = .empty :=
      MethodSet.ext_mem fun m => iff_of_false (silent (.method m) rfl) List.not_mem_nil
    have unannounced : s.methods.initialDataLength = none :=
      Option.eq_none_iff_forall_ne_some.mpr fun n => silent (.initialDataLength n) rfl
    refine ⟨Option.eq_none_iff_forall_ne_some.mpr fun u => silent (.session (.state u)) ?_,
      Bool.eq_false_iff.mpr ?_, TokenGroup.eq_empty fun o => silent (.token o) ?_, ?_,
      AuthDataGroup.eq_empty fun d => silent (.authData d) ?_⟩
    · cases u <;> rfl
    · exact silent (.session .teardown) rfl
    · cases o <;> rfl
    · rw [MethodGroup.empty, ← unlisted, ← unannounced, ← unselected]
    · cases d <;> rfl

/-! ## Values in their domains -/

/-- Every value lies in the domain of its field. -/
structure InDomain (s : OptionSet) : Prop where
  backlog : ∀ side n, s.stack.backlog.value side = some n → n ≠ 0
  windowRequest : ∀ size, s.tokens.windowRequest = some size →
    1 ≤ size.toNat ∧ size.toNat ≤ 2 ^ 31
  window : ∀ w, s.tokens.window = some w → 1 ≤ w.size.toNat ∧ w.size.toNat ≤ 2 ^ 31
  initialDataLength : ∀ n, s.methods.initialDataLength = some n →
    1 ≤ n.toNat ∧ n.toNat ≤ 16384
  sessionId : ∀ id, s.session.state = some (.id id) →
    1 ≤ id.bytes.length ∧ id.bytes.length ≤ 255
  credentials : ∀ c, s.authData.credentials = some c → c.username.IsName ∧ c.password.IsName
  advertised : ∀ m ∈ s.methods.advertised.toList, m ≠ .noAuth ∧ m ≠ .noAcceptable

/-- What is in range for an option of its own is in range for the set. -/
theorem Lawful.inRange (h : s.Lawful) (f : Fact) (held : s.Holds f) : f.option.InRange :=
  (h.facts f held).option.inRange

theorem Lawful.inDomain (h : s.Lawful) : s.InDomain where
  backlog := by
    intro side n held
    exact StackProperty.ne_zero_of_validate (h.inRange (.stack side (.backlog n)) held _ rfl)
  windowRequest := by
    intro size held
    exact TokenWindow.bounds_of_checkSize (h.inRange (.token (.windowRequest size)) held _ rfl)
  window := by
    intro w held
    exact TokenWindow.bounds_of_checkSize (h.inRange (.token (.window w)) held _ rfl)
  initialDataLength := by
    intro n held
    have positive : n ≠ 0 := fun zero => h.initialDataLength_ne_zero (zero ▸ held)
    have short := (Advertisement.validate_eq_ok.mp
      (h.inRange (.initialDataLength n) held _ rfl)).1
    refine ⟨Nat.one_le_iff_ne_zero.mpr fun zero => positive (UInt16.toNat_inj.mp zero), ?_⟩
    exact UInt16.le_iff_toNat_le.mp short
  sessionId := by
    intro id _
    exact id.bounds
  credentials := by
    intro c held
    exact Credentials.isName_of_validate (h.inRange (.authData (.credentials c)) held _ rfl)
  advertised := by
    intro m offered
    refine ⟨fun none => h.noAuth_not_advertised (none ▸ offered), ?_⟩
    rintro rfl
    have unlisted := (Advertisement.validate_eq_ok.mp
      (h.inRange (.method .noAcceptable) offered _ rfl)).2
    exact unlisted (List.mem_singleton.mpr rfl)

/-! ## The invariant -/

/-- A set for this kind of envelope whose content may be there: its records may
travel, nothing else is populated, every value lies in its domain, and its frames
are uninterpreted. -/
structure Sound (mode : Mode) (s : OptionSet) : Prop where
  kind : s.mode = mode
  records : ∀ o ∈ s.records, s.allows o = true
  confined : s.Confined
  exclusive : s.authData.credentials = none ∨ s.authData.verdict = none
  inDomain : s.InDomain
  raw : ∀ f ∈ s.raw, f.interpret s.mode = .ok (.raw f)

theorem Lawful.sound {mode : Mode} (h : s.Lawful) (kind : s.mode = mode) : s.Sound mode where
  kind := kind
  records := fun _ listed => (h.admissible listed).allowed
  confined := h.confined
  exclusive := h.credentials_or_verdict
  inDomain := h.inDomain
  raw := h.raw

/-- Whatever is done to a set that is made for a kind of envelope, or read from
any bytes for it under any policy, it is sound for that kind. -/
theorem sound_run {mode : Mode} {start : OptionSet}
    (begins : start = .empty mode ∨ ∃ policy c c' events,
      (OptionSet.read mode policy).on c = (.ok (start, events), c'))
    (changes : List Change) : (start.run changes).Sound mode := by
  have first : start.Lawful ∧ start.mode = mode := by
    rcases begins with rfl | ⟨policy, c, c', events, read⟩
    · exact ⟨.empty mode, rfl⟩
    · obtain ⟨block, -, -, eq⟩ := on_read_eq_ok.mp read
      have lawful := Lawful.ofBlock mode policy block
      have kind := mode_ofBlock mode policy block
      rw [eq] at lawful kind
      exact ⟨lawful, kind⟩
  exact (first.1.run changes).sound ((mode_run start changes).trans first.2)

/-- A block whose first record is cut short and whose second is not known, and
changes of which the first two and the last are refused. -/
theorem sound_run_damaged :
    let start := ((empty .request).attempt (.raw ⟨99, [7]⟩)).2
    let block := [0, 1, 0, 5, 1, 0, 99, 0, 5, 7]
    (OptionSet.read .request .passthrough).on (.ofBytes ([0, 10] ++ block)) =
      (.ok (start, (ofBlock .request .passthrough block).2), ⟨([0, 10] ++ block).toArray, []⟩) ∧
    (start.run [.backlog .both 0, .verdict true, .tos .both 7, .requestSession,
      .sessionOk]).Sound .request := by
  intro start block
  have read : (OptionSet.read .request .passthrough).on (.ofBytes ([0, 10] ++ block)) =
      (.ok (start, (ofBlock .request .passthrough block).2), ⟨([0, 10] ++ block).toArray, []⟩) :=
    on_read_eq_ok.mpr ⟨block, by decide, ⟨by decide, by decide⟩, Prod.ext rfl rfl⟩
  exact ⟨read, sound_run (.inr ⟨_, _, _, _, read⟩) _⟩

end OptionSet

end Socks6
