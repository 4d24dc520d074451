/-
# Socks6.Proofs.Persistence — what a set says, it goes on saying

Nothing is ever taken back.  Whatever is done to a set, every field that was
populated keeps its value, and an option that was accepted once is accepted
again and changes nothing (`OptionSet.keeps_run`).

`OptionSet.Keeps` says this field by field.  It is the same as keeping every fact
that is held (`OptionSet.keeps_iff`), and in that form it is seen for one step:
an option that is applied adds its facts and removes none.  A method that is
selected is the one field that is no fact, and it has a clause of its own, since
no-authentication stands for none.
-/
import Socks6.Proofs.Lawful

namespace Socks6

/-- What is set on a leg stays set to the same value. -/
def Legs.Keeps {α : Type} (l l' : Legs α) : Prop :=
  ∀ side v, l.value side = some v → l'.value side = some v

theorem OptionRecord.frames_of_interpreted {o : OptionRecord} (interpreted : o.isRaw = false) :
    o.frames = [] := by
  cases o with
  | raw frame => cases interpreted
  | _ => rfl

namespace OptionSet

variable {s t u : OptionSet} {o : OptionRecord} {fs : List Fact} {raw : List Frame}

/-! ## Keeping -/

/-- The second set is of the same kind, and each populated field of the first has
its value there too. -/
structure Keeps (s t : OptionSet) : Prop where
  mode : t.mode = s.mode
  tos : s.stack.tos.Keeps t.stack.tos
  fastOpen : s.stack.fastOpen.Keeps t.stack.fastOpen
  multipath : s.stack.multipath.Keeps t.stack.multipath
  scheduler : s.stack.scheduler.Keeps t.stack.scheduler
  backlog : s.stack.backlog.Keeps t.stack.backlog
  sessionState : ∀ u, s.session.state = some u → t.session.state = some u
  teardown : s.session.teardown = true → t.session.teardown = true
  untrusted : s.session.untrusted = true → t.session.untrusted = true
  windowRequest : ∀ n, s.tokens.windowRequest = some n → t.tokens.windowRequest = some n
  token : ∀ n, s.tokens.token = some n → t.tokens.token = some n
  window : ∀ w, s.tokens.window = some w → t.tokens.window = some w
  expenditureReply : ∀ r, s.tokens.expenditureReply = some r → t.tokens.expenditureReply = some r
  advertised : ∀ m ∈ s.methods.advertised.toList, m ∈ t.methods.advertised.toList
  initialDataLength : ∀ n, s.methods.initialDataLength = some n →
    t.methods.initialDataLength = some n
  /-- No-authentication is what holds before any selection. -/
  selected : s.methods.selected ≠ .noAuth → t.methods.selected = s.methods.selected
  credentials : ∀ c, s.authData.credentials = some c → t.authData.credentials = some c
  verdict : ∀ v, s.authData.verdict = some v → t.authData.verdict = some v
  raw : s.raw <+: t.raw

/-- Keeping every field is keeping every fact, the frames in front, and a selection. -/
theorem keeps_iff : s.Keeps t ↔ t.mode = s.mode ∧
    (s.methods.selected ≠ .noAuth → t.methods.selected = s.methods.selected) ∧
    s.raw <+: t.raw ∧ ∀ f, s.Holds f → t.Holds f := by
  constructor
  · intro h
    refine ⟨h.mode, h.selected, h.raw, ?_⟩
    intro f held
    cases f with
    | stack side p =>
        cases p with
        | tos v => exact h.tos side v held
        | fastOpen v => exact h.fastOpen side v held
        | multipath v => exact h.multipath side v held
        | scheduler v => exact h.scheduler side v held
        | backlog v => exact h.backlog side v held
    | token o =>
        cases o with
        | windowRequest n => exact h.windowRequest n held
        | window w => exact h.window w held
        | expenditure n => exact h.token n held
        | expenditureReply r => exact h.expenditureReply r held
    | initialDataLength n => exact h.initialDataLength n held
    | method m => exact h.advertised m held
    | authData d =>
        cases d with
        | credentials c => exact h.credentials c held
        | verdict v => exact h.verdict v held
    | session x =>
        cases x with
        | state u => exact h.sessionState u held
        | teardown => exact h.teardown held
        | untrusted => exact h.untrusted held
  · intro h
    obtain ⟨mode, selected, raw, facts⟩ := h
    exact {
      mode, selected, raw
      tos := fun side v => facts (.stack side (.tos v))
      fastOpen := fun side v => facts (.stack side (.fastOpen v))
      multipath := fun side v => facts (.stack side (.multipath v))
      scheduler := fun side v => facts (.stack side (.scheduler v))
      backlog := fun side v => facts (.stack side (.backlog v))
      sessionState := fun u => facts (.session (.state u))
      teardown := facts (.session .teardown)
      untrusted := facts (.session .untrusted)
      windowRequest := fun n => facts (.token (.windowRequest n))
      token := fun n => facts (.token (.expenditure n))
      window := fun w => facts (.token (.window w))
      expenditureReply := fun r => facts (.token (.expenditureReply r))
      advertised := fun m => facts (.method m)
      initialDataLength := fun n => facts (.initialDataLength n)
      credentials := fun c => facts (.authData (.credentials c))
      verdict := fun v => facts (.authData (.verdict v)) }

namespace Keeps

theorem refl (s : OptionSet) : s.Keeps s :=
  keeps_iff.mpr ⟨rfl, fun _ => rfl, List.prefix_refl _, fun _ held => held⟩

theorem trans (h : s.Keeps t) (k : t.Keeps u) : s.Keeps u := by
  obtain ⟨mode, selected, raw, facts⟩ := keeps_iff.mp h
  obtain ⟨mode', selected', raw', facts'⟩ := keeps_iff.mp k
  refine keeps_iff.mpr ⟨mode'.trans mode, ?_, raw.trans raw', fun f held => facts' f (facts f held)⟩
  intro chosen
  have same := selected chosen
  rw [selected' (same ▸ chosen), same]

theorem holds (h : s.Keeps t) {f : Fact} (held : s.Holds f) : t.Holds f :=
  (keeps_iff.mp h).2.2.2 f held

end Keeps

theorem Extends.keeps (h : s.Extends fs raw t) : s.Keeps t := by
  refine keeps_iff.mpr ⟨h.mode, fun _ => h.selected, ?_, fun f held => (h.holds f).mpr (.inl held)⟩
  rw [h.raw]
  exact List.prefix_append _ _

/-! ## Steps and runs -/

theorem keeps_of_apply (h : s.apply o = .ok t) : s.Keeps t := (extends_of_apply h).2.keeps

theorem keeps_of_select {m : AuthMethod} (h : s.select m = .ok t) : s.Keeps t := by
  obtain ⟨-, free, rfl⟩ := select_eq_ok.mp h
  refine keeps_iff.mpr ⟨rfl, ?_, List.prefix_refl _, ?_⟩
  · intro chosen
    exact (free.resolve_left chosen).symm
  · intro f held
    cases f <;> exact held

theorem keeps_attempt (s : OptionSet) (c : Change) : s.Keeps (s.attempt c).2 := by
  rcases s.attempt_cases c with same | ⟨o, applied⟩ | ⟨m, selected⟩
  · rw [same]
    exact .refl s
  · exact keeps_of_apply applied
  · exact keeps_of_select selected

theorem keeps_of_run (s : OptionSet) (cs : List Change) : s.Keeps (s.run cs) := by
  induction cs generalizing s with
  | nil => exact .refl s
  | cons c cs ih =>
      rw [run_cons]
      exact (s.keeps_attempt c).trans (ih _)

theorem keeps_absorbAll (retain : Bool) (s : OptionSet) (ps : List PlacedFrame) :
    s.Keeps (s.absorbAll retain ps).1 := by
  obtain ⟨os, -, -, run⟩ := exists_applyAll_of_absorbAll retain s ps
  exact (extends_of_applyAll run).2.keeps

/-! ## Options that were accepted -/

/-- The option was applied at some point on the way to this set: while its block
was read, or by a change. -/
inductive Accepted (o : OptionRecord) : OptionSet → Prop
  | apply {s t : OptionSet} : s.apply o = .ok t → Accepted o t
  | absorbAll {s : OptionSet} (retain : Bool) (ps : List PlacedFrame) :
    Accepted o s → Accepted o (s.absorbAll retain ps).1
  | attempt {s : OptionSet} (c : Change) : Accepted o s → Accepted o (s.attempt c).2

/-- A set still says what an option said when it was accepted. -/
theorem Accepted.stated (h : Accepted o s) :
    o.Admissible s.mode ∧ ∀ f ∈ o.facts, s.Holds f := by
  -- only the first step says it; the mode and the facts are carried by every later one
  have later {s t : OptionSet} (kept : s.Keeps t)
      (said : o.Admissible s.mode ∧ ∀ f ∈ o.facts, s.Holds f) :
      o.Admissible t.mode ∧ ∀ f ∈ o.facts, t.Holds f :=
    ⟨kept.mode ▸ said.1, fun f stated => kept.holds (said.2 f stated)⟩
  induction h with
  | apply applied =>
      obtain ⟨admissible, step⟩ := extends_of_apply applied
      exact ⟨step.mode ▸ admissible, fun f stated => (step.holds f).mpr (.inr stated)⟩
  | absorbAll retain ps _ ih => exact later (keeps_absorbAll retain _ ps) ih
  | attempt c _ ih => exact later (keeps_attempt _ c) ih

theorem Accepted.run (h : Accepted o s) (cs : List Change) : Accepted o (s.run cs) := by
  induction cs generalizing s with
  | nil => exact h
  | cons c cs ih =>
      rw [run_cons]
      exact ih (h.attempt c)

/-- Applying an option that says nothing new makes no difference. -/
theorem apply_of_stated (interpreted : o.isRaw = false) (admissible : o.Admissible s.mode)
    (stated : ∀ f ∈ o.facts, s.Holds f) : s.apply o = .ok s := by
  obtain ⟨t, applied⟩ := exists_apply_of_le admissible (fun _ held => held) stated
  have step := (extends_of_apply applied).2
  rw [OptionRecord.frames_of_interpreted interpreted] at step
  have stays : s.Extends o.facts [] s := by
    refine ⟨rfl, rfl, (List.append_nil _).symm, fun f => ?_⟩
    constructor
    · exact .inl
    · intro said
      exact said.elim id (stated f)
  rw [applied, step.unique stays]

/-- Whatever is done to a set, it keeps what it says; and an option that was
accepted before is accepted again and changes nothing. -/
theorem keeps_run (s : OptionSet) (changes : List Change) :
    s.Keeps (s.run changes) ∧
    ∀ o, o.isRaw = false → Accepted o (s.run changes) →
      (s.run changes).attempt (.apply o) = (.ok (), s.run changes) := by
  refine ⟨s.keeps_of_run changes, ?_⟩
  intro o interpreted accepted
  obtain ⟨admissible, stated⟩ := accepted.stated
  have again : (s.run changes).change (.apply o) = .ok (s.run changes) :=
    apply_of_stated interpreted admissible stated
  rw [attempt, again]

/-- A setting on both legs, and then changes of which the first, which contradicts
it on one leg, and the last, which a request cannot carry, are refused. -/
theorem keeps_run_refused :
    let o : OptionRecord := .stack ⟨.both, .tos 7⟩
    let start := ((empty .request).attempt (.apply o)).2
    let changes : List Change :=
      [.tos .clientProxy 8, .advertiseMethod .gssapi, .raw ⟨99, [1]⟩, .sessionOk]
    start.Keeps (start.run changes) ∧ o.isRaw = false ∧ Accepted o (start.run changes) ∧
    (start.run changes).attempt (.apply o) = (.ok (), start.run changes) := by
  intro o start changes
  have accepted : Accepted o start := .apply (s := empty .request) rfl
  obtain ⟨keeps, again⟩ := keeps_run start changes
  exact ⟨keeps, rfl, accepted.run changes, again o rfl (accepted.run changes)⟩

end OptionSet

end Socks6
