/-
# Socks6.Proofs.Lawful — the sets that can arise

A set of options starts empty or is read from a block, and then it is changed
step by step (`OptionSet.Reachable`).  Every such set is `Lawful`: each fact that
it holds could be stated in its kind of envelope by an option of its own, each
frame that it passes on is uninterpreted there, and a method is selected only in
an authentication reply.  One step keeps a set lawful whatever it is, because an
option that is applied is admissible, and an admissible option states admissible
facts.
-/
import Socks6.OptionSet.Change
import Socks6.Proofs.Block

namespace Socks6

/-! ## Facts that can be held -/

theorem Advertisement.validate_eq_ok {a : Advertisement} :
    a.validate = .ok () ↔ a.initialDataLength ≤ maxInitialData ∧ .noAcceptable ∉ a.methods := by
  unfold validate
  rw [← UInt16.not_lt]
  split
  · rename_i long
    simp [long]
  · rename_i short
    split
    · rename_i listed
      simp_all
    · rename_i unlisted
      simp_all

namespace Fact

/-- The option that says this and nothing else. -/
def option : Fact → OptionRecord
  | .stack side p => .stack ⟨side.leg, p⟩
  | .token o => .token o
  | .initialDataLength n => .advertisement ⟨n, []⟩
  | .method m => .advertisement ⟨0, [m]⟩
  | .authData d => .authData d
  | .session s => .session s

/-- An envelope of this kind can carry an option that says this and nothing else. -/
structure Admissible (mode : Mode) (f : Fact) : Prop where
  alone : f.option.facts = [f]
  option : f.option.Admissible mode

end Fact

theorem OptionRecord.Admissible.fact {mode : Mode} {o : OptionRecord} {f : Fact}
    (h : o.Admissible mode) (stated : f ∈ o.facts) : f.Admissible mode := by
  cases o with
  | stack x =>
      obtain ⟨side, -, rfl⟩ := List.mem_map.mp stated
      obtain ⟨leg, p⟩ := x
      refine ⟨by simp [Fact.option, facts], .of_interpreted rfl ?_ h.inRange⟩
      have allowed := h.allowed
      cases p <;> exact allowed
  | session x =>
      obtain rfl := List.mem_singleton.mp stated
      exact ⟨rfl, h⟩
  | token x =>
      obtain rfl := List.mem_singleton.mp stated
      exact ⟨rfl, h⟩
  | advertisement a =>
      obtain ⟨short, acceptable⟩ := Advertisement.validate_eq_ok.mp (h.inRange _ rfl)
      rcases List.mem_append.mp stated with first | second
      · by_cases zero : a.initialDataLength = 0
        · rw [if_pos zero] at first
          cases first
        · rw [if_neg zero] at first
          obtain rfl := List.mem_singleton.mp first
          refine ⟨by simp [Fact.option, facts, zero, Advertisement.emitted],
            .of_interpreted rfl h.allowed ?_⟩
          rintro r ⟨⟩
          exact Advertisement.validate_eq_ok.mpr ⟨short, List.not_mem_nil⟩
      · obtain ⟨m, listed, rfl⟩ := List.mem_map.mp second
        obtain ⟨offered, named⟩ := List.mem_filter.mp listed
        refine ⟨by simp_all [Fact.option, facts, Advertisement.emitted],
          .of_interpreted rfl h.allowed ?_⟩
        rintro r ⟨⟩
        refine Advertisement.validate_eq_ok.mpr ⟨UInt16.zero_le, fun same => ?_⟩
        rw [List.mem_singleton.mp same] at acceptable
        exact acceptable offered
  | authData d =>
      obtain rfl := List.mem_singleton.mp stated
      exact ⟨rfl, h⟩
  | raw frame => cases stated

/-- An option that states something is admissible if all that it states is. -/
theorem OptionRecord.admissible_of_facts {mode : Mode} {o : OptionRecord} (some : o.facts ≠ [])
    (h : ∀ f ∈ o.facts, f.Admissible mode) : o.Admissible mode := by
  obtain ⟨f, stated⟩ := List.exists_mem_of_ne_nil _ some
  have option := (h f stated).option
  cases o with
  | stack x =>
      obtain ⟨side, -, rfl⟩ := List.mem_map.mp stated
      obtain ⟨leg, p⟩ := x
      refine .of_interpreted rfl ?_ option.inRange
      have allowed := option.allowed
      cases p <;> exact allowed
  | session x =>
      obtain rfl := List.mem_singleton.mp stated
      exact option
  | token x =>
      obtain rfl := List.mem_singleton.mp stated
      exact option
  | advertisement a =>
      have valid {g : Fact} {b : Advertisement} (said : g ∈ (advertisement a).facts)
          (same : g.option = .advertisement b) : b.validate = .ok () := by
        have inRange := (h g said).option.inRange
        rw [same] at inRange
        exact inRange _ rfl
      refine .of_interpreted rfl ?_ ?_
      · have allowed := option.allowed
        cases f with
        | initialDataLength n => exact allowed
        | method m => exact allowed
        | _ => simp [facts] at stated
      · rintro r ⟨⟩
        refine Advertisement.validate_eq_ok.mpr ⟨?_, fun offered => ?_⟩
        · by_cases zero : a.initialDataLength = 0
          · rw [zero]
            exact UInt16.zero_le
          · exact (Advertisement.validate_eq_ok.mp (valid
              (initialDataLength_mem_facts.mpr ⟨zero, rfl⟩) rfl)).1
        · have emitted : .noAcceptable ∈ a.emitted := List.mem_filter.mpr ⟨offered, rfl⟩
          have unlisted :=
            Advertisement.validate_eq_ok.mp (valid (method_mem_facts.mpr emitted) rfl)
          exact unlisted.2 (List.mem_singleton.mpr rfl)
  | authData d =>
      obtain rfl := List.mem_singleton.mp stated
      exact option
  | raw frame => cases stated

namespace OptionSet

variable {s t : OptionSet} {o : OptionRecord} {os : List OptionRecord}

/-! ## Lawful sets -/

/-- All that the set holds could be held by a set of its kind alone. -/
structure Lawful (s : OptionSet) : Prop where
  facts : ∀ f, s.Holds f → f.Admissible s.mode
  raw : ∀ f ∈ s.raw, f.interpret s.mode = .ok (.raw f)
  selected : s.methods.selected = .noAuth ∨ s.mode = .authReply

theorem not_holds_empty (mode : Mode) (f : Fact) : ¬(empty mode).Holds f := by
  rcases f with ⟨_ | _, _ | _ | _ | _ | _⟩ | (_ | _ | _ | _) | n | m | (_ | _) | (_ | _ | _) <;>
    exact nofun

namespace Lawful

theorem empty (mode : Mode) : (empty mode).Lawful :=
  ⟨fun f held => absurd held (not_holds_empty mode f), nofun, .inl rfl⟩

theorem applyAll (h : s.Lawful) (run : s.applyAll os = .ok t) : t.Lawful := by
  obtain ⟨admissible, step⟩ := extends_of_applyAll run
  refine ⟨fun f held => ?_, fun f passed => ?_, ?_⟩
  · rw [step.mode]
    rcases (step.holds f).mp held with before | stated
    · exact h.facts f before
    · obtain ⟨o, ho, hf⟩ := List.mem_flatMap.mp stated
      exact (admissible o ho).fact hf
  · rw [step.mode]
    rw [step.raw] at passed
    rcases List.mem_append.mp passed with before | added
    · exact h.raw f before
    · obtain ⟨o, ho, hf⟩ := List.mem_flatMap.mp added
      exact (admissible o ho).uninterpreted f hf
  · rw [step.mode, step.selected]
    exact h.selected

end Lawful

theorem applyAll_singleton : s.applyAll [o] = s.apply o := by
  rw [applyAll, List.foldlM_cons]
  exact bind_pure _

/-! ## Selecting a method -/

theorem MethodGroup.select_eq_ok {g g' : MethodGroup} {m : AuthMethod} :
    g.select m = .ok g' ↔
      (g.selected = .noAuth ∨ g.selected = m) ∧ { g with selected := m } = g' := by
  rw [MethodGroup.select, andThen_eq_ok, Slot.check_eq_ok, pure_eq_ok]
  by_cases none : g.selected = .noAuth <;> simp [none]

theorem select_eq_ok {m : AuthMethod} :
    s.select m = .ok t ↔ s.mode = .authReply ∧
      (s.methods.selected = .noAuth ∨ s.methods.selected = m) ∧
      { s with methods := { s.methods with selected := m } } = t := by
  unfold select
  by_cases reply : s.mode = .authReply
  · simp only [reply, if_true, bind_eq_ok, pure_eq_ok, MethodGroup.select_eq_ok]
    simp
  · simp only [reply, if_false, bind_eq_ok, false_and, iff_false]
    intro h
    obtain ⟨_, refused, -⟩ := h
    cases refused

theorem Lawful.select {m : AuthMethod} (h : s.Lawful) (selected : s.select m = .ok t) :
    t.Lawful := by
  obtain ⟨reply, -, rfl⟩ := select_eq_ok.mp selected
  exact ⟨fun f held => h.facts f (by cases f <;> exact held), h.raw, .inr reply⟩

/-! ## Changes -/

/-- Every change applies an option or selects a method. -/
theorem exists_of_change {c : Change} (h : s.change c = .ok t) :
    (∃ o, s.apply o = .ok t) ∨ ∃ m, s.select m = .ok t := by
  cases c with
  | selectMethod m => exact .inr ⟨m, h⟩
  | advertiseWindow base size =>
      obtain ⟨_, -, applied⟩ := bind_eq_ok.mp h
      exact .inl ⟨_, applied⟩
  | initialDataLength n =>
      rw [change] at h
      split at h
      · cases h
      · exact .inl ⟨_, h⟩
  | raw frame => exact .inl ⟨.raw frame, h⟩
  | _ => exact .inl ⟨_, h⟩

theorem snd_attempt (s : OptionSet) (c : Change) :
    (s.attempt c).2 = (s.change c).toOption.getD s := by
  rcases made : s.change c with e | t <;> rw [attempt, made] <;> rfl

/-- An attempted change leaves the set as it was or is made. -/
theorem attempt_cases (s : OptionSet) (c : Change) :
    (s.attempt c).2 = s ∨ (∃ o, s.apply o = .ok (s.attempt c).2) ∨
      ∃ m, s.select m = .ok (s.attempt c).2 := by
  rw [attempt]
  split
  · rename_i t made
    exact .inr (exists_of_change made)
  · exact .inl rfl

theorem mode_attempt (s : OptionSet) (c : Change) : (s.attempt c).2.mode = s.mode := by
  rcases s.attempt_cases c with same | ⟨o, applied⟩ | ⟨m, selected⟩
  · rw [same]
  · exact (extends_of_apply applied).2.mode
  · obtain ⟨-, -, made⟩ := select_eq_ok.mp selected
    rw [← made]

theorem Lawful.attempt (h : s.Lawful) (c : Change) : (s.attempt c).2.Lawful := by
  rcases s.attempt_cases c with same | ⟨o, applied⟩ | ⟨m, selected⟩
  · rwa [same]
  · exact h.applyAll (applyAll_singleton.trans applied)
  · exact h.select selected

theorem run_cons (s : OptionSet) (c : Change) (cs : List Change) :
    s.run (c :: cs) = (s.attempt c).2.run cs :=
  rfl

theorem mode_run (s : OptionSet) (cs : List Change) : (s.run cs).mode = s.mode := by
  induction cs generalizing s with
  | nil => rfl
  | cons c cs ih =>
      rw [run_cons, ih]
      exact s.mode_attempt c

theorem Lawful.run (h : s.Lawful) (cs : List Change) : (s.run cs).Lawful := by
  induction cs generalizing s with
  | nil => exact h
  | cons c cs ih => exact ih (h.attempt c)

/-! ## Sets that arise -/

/-- A set that is made or read, and then changed step by step, refused changes included. -/
inductive Reachable : OptionSet → Prop
  | empty (mode : Mode) : Reachable (empty mode)
  | read {mode : Mode} {policy : Policy} {c c' : Cursor} {s : OptionSet} {events : List Event} :
    (OptionSet.read mode policy).on c = (.ok (s, events), c') → Reachable s
  | attempt {s : OptionSet} (c : Change) : Reachable s → Reachable (s.attempt c).2

theorem Reachable.run (h : s.Reachable) (cs : List Change) : (s.run cs).Reachable := by
  induction cs generalizing s with
  | nil => exact h
  | cons c cs ih => exact ih (h.attempt c)

theorem Lawful.ofBlock (mode : Mode) (policy : Policy) (block : Bytes) :
    (ofBlock mode policy block).1.Lawful := by
  obtain ⟨os, -, -, run⟩ := exists_applyAll_of_ofBlock mode policy block
  exact (Lawful.empty mode).applyAll run

theorem mode_ofBlock (mode : Mode) (policy : Policy) (block : Bytes) :
    (OptionSet.ofBlock mode policy block).1.mode = mode :=
  mode_absorbAll _ _ _

theorem Reachable.lawful (h : s.Reachable) : s.Lawful := by
  induction h with
  | empty mode => exact .empty mode
  | @read mode policy _ _ _ _ h =>
      obtain ⟨block, -, -, eq⟩ := on_read_eq_ok.mp h
      have lawful := Lawful.ofBlock mode policy block
      rwa [eq] at lawful
  | attempt c _ ih => exact ih.attempt c

end OptionSet

end Socks6
