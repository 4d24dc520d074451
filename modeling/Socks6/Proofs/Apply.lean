/-
# Socks6.Proofs.Apply — what it means to apply an option

`OptionSet.Extends s fs raw t` says that `t` says what `s` says, the facts `fs`,
passes on the frames `raw` behind those of `s`, and differs in nothing else.  It
determines `t`.  An option that is applied is admissible on its own and extends
the set by its facts and frames; an admissible option is applied unless a fact of
it contradicts one that is held.  These two lemmas are all that is used of
`OptionSet.apply` from here on, and runs of options inherit both by induction.
-/
import Socks6.OptionSet.Change
import Socks6.Proofs.Facts
import Socks6.Proofs.Record

namespace Socks6

/-- An option that an envelope of this kind can carry: it is allowed there, its
values are in range, and a frame that it passes on is uninterpreted there. -/
structure OptionRecord.Admissible (mode : Mode) (o : OptionRecord) : Prop where
  allowed : o.allowedIn mode = true
  inRange : o.InRange
  uninterpreted : ∀ f ∈ o.frames, f.interpret mode = .ok (.raw f)

theorem OptionRecord.Admissible.of_interpreted {mode : Mode} {o : OptionRecord}
    (interpreted : o.frames = []) (allowed : o.allowedIn mode = true) (inRange : o.InRange) :
    o.Admissible mode := by
  refine ⟨allowed, inRange, fun f passed => ?_⟩
  rw [interpreted] at passed
  cases passed

namespace OptionSet

variable {s t u : OptionSet} {o : OptionRecord} {os : List OptionRecord}
  {fs gs : List Fact} {raw raw' : List Frame}

/-! ## Extensions -/

/-- The second set says what the first one says, the facts and the frames, and no more. -/
structure Extends (s : OptionSet) (fs : List Fact) (raw : List Frame) (t : OptionSet) : Prop where
  mode : t.mode = s.mode
  selected : t.methods.selected = s.methods.selected
  raw : t.raw = s.raw ++ raw
  holds : ∀ f, t.Holds f ↔ s.Holds f ∨ f ∈ fs

namespace Extends

theorem refl (s : OptionSet) : s.Extends [] [] s :=
  ⟨rfl, rfl, (List.append_nil _).symm, by simp⟩

theorem trans (h : s.Extends fs raw t) (k : t.Extends gs raw' u) :
    s.Extends (fs ++ gs) (raw ++ raw') u := by
  refine ⟨k.mode.trans h.mode, k.selected.trans h.selected, ?_, fun f => ?_⟩
  · rw [k.raw, h.raw, List.append_assoc]
  · rw [k.holds, h.holds, List.mem_append, or_assoc]

theorem unique (h : s.Extends fs raw t) (k : s.Extends fs raw u) : t = u :=
  ext_holds (h.mode.trans k.mode.symm) (h.selected.trans k.selected.symm)
    (h.raw.trans k.raw.symm) fun f => (h.holds f).trans (k.holds f).symm

end Extends

/-! ## Options -/

theorem checkOpaque_eq_ok {f : Frame} :
    s.checkOpaque f = .ok () ↔ f.interpret s.mode = .ok (.raw f) := by
  unfold checkOpaque
  constructor
  · intro h
    split at h
    · rename_i g same
      rw [same, Frame.interpret_eq_raw same]
    · cases h
    · cases h
  · intro h
    rw [h]

/-- All that applying an option can do: its group takes it, or its frame is passed on. -/
theorem apply_eq_ok :
    s.apply o = .ok t ↔ o.allowedIn s.mode = true ∧
      match o with
      | .stack x => ∃ g, s.stack.merge x = .ok g ∧ { s with stack := g } = t
      | .session x => ∃ g, s.session.merge x = .ok g ∧ { s with session := g } = t
      | .token x => ∃ g, s.tokens.merge x = .ok g ∧ { s with tokens := g } = t
      | .advertisement a => ∃ g, s.methods.merge a = .ok g ∧ { s with methods := g } = t
      | .authData d => ∃ g, s.authData.merge d = .ok g ∧ { s with authData := g } = t
      | .raw frame =>
        frame.interpret s.mode = .ok (.raw frame) ∧ { s with raw := s.raw ++ [frame] } = t := by
  unfold apply
  rcases allowed : s.allows o
  · have refused : o.allowedIn s.mode = false := allowed
    rw [refused]
    constructor
    · intro h
      cases h
    · intro h
      cases h.1
  · have passed : o.allowedIn s.mode = true := allowed
    rw [passed]
    refine Iff.trans ?_ (and_iff_right rfl).symm
    cases o with
    | raw frame => exact andThen_eq_ok.trans (and_congr checkOpaque_eq_ok pure_eq_ok)
    | _ => exact bind_eq_ok.trans (exists_congr fun _ => and_congr_right fun _ => pure_eq_ok)

/-- An option that is applied is admissible, and the set says it from then on. -/
theorem extends_of_apply (h : s.apply o = .ok t) :
    o.Admissible s.mode ∧ s.Extends o.facts o.frames t := by
  obtain ⟨allowed, h⟩ := apply_eq_ok.mp h
  cases o with
  | stack x =>
      obtain ⟨g, merged, rfl⟩ := h
      obtain ⟨valid, holds⟩ := StackGroup.holds_of_merge merged
      refine ⟨.of_interpreted rfl allowed fun r hr => ?_, rfl, rfl, (List.append_nil _).symm,
        fun f => ?_⟩
      · cases hr
        exact valid
      · cases f with
        | stack side p =>
            exact (holds side p).trans (or_congr_right OptionRecord.stack_mem_facts.symm)
        | _ => simp [Holds, OptionRecord.facts]
  | session x =>
      obtain ⟨g, merged, rfl⟩ := h
      have holds := SessionGroup.holds_of_merge merged
      refine ⟨.of_interpreted rfl allowed fun r hr => (by cases hr), rfl, rfl,
        (List.append_nil _).symm, fun f => ?_⟩
      cases f <;> simp [Holds, OptionRecord.facts, holds]
  | token x =>
      obtain ⟨g, merged, rfl⟩ := h
      obtain ⟨valid, holds⟩ := TokenGroup.holds_of_merge merged
      refine ⟨.of_interpreted rfl allowed fun r hr => ?_, rfl, rfl, (List.append_nil _).symm,
        fun f => ?_⟩
      · cases hr
        exact valid
      · cases f <;> simp [Holds, OptionRecord.facts, holds]
  | advertisement a =>
      obtain ⟨g, merged, rfl⟩ := h
      obtain ⟨valid, selected, length, methods⟩ := MethodGroup.holds_of_merge merged
      refine ⟨.of_interpreted rfl allowed fun r hr => ?_, rfl, selected,
        (List.append_nil _).symm, fun f => ?_⟩
      · cases hr
        exact valid
      · cases f with
        | initialDataLength n =>
            exact (length n).trans (or_congr_right OptionRecord.initialDataLength_mem_facts.symm)
        | method m =>
            exact (methods m).trans (or_congr_right OptionRecord.method_mem_facts.symm)
        | _ => by_cases zero : a.initialDataLength = 0 <;> simp [Holds, OptionRecord.facts, zero]
  | authData d =>
      obtain ⟨g, merged, rfl⟩ := h
      obtain ⟨valid, holds⟩ := AuthDataGroup.holds_of_merge merged
      refine ⟨.of_interpreted rfl allowed valid, rfl, rfl, (List.append_nil _).symm, fun f => ?_⟩
      cases f <;> simp [Holds, OptionRecord.facts, holds]
  | raw frame =>
      obtain ⟨sealed, rfl⟩ := h
      refine ⟨⟨allowed, fun r hr => (by cases hr), fun f hf => ?_⟩, rfl, rfl, rfl, fun f => ?_⟩
      · obtain rfl := List.mem_singleton.mp hf
        exact sealed
      · cases f <;> simp [Holds, OptionRecord.facts]

/-- An admissible option is applied, unless the set says something else on one of its topics. -/
theorem exists_apply (admissible : o.Admissible s.mode)
    (free : ∀ f ∈ o.facts, ∀ g, s.Holds g → g.topic = f.topic → g = f) :
    ∃ t, s.apply o = .ok t := by
  obtain ⟨allowed, valid, uninterpreted⟩ := admissible
  cases o with
  | stack x =>
      obtain ⟨g, merged⟩ := StackGroup.exists_merge (g := s.stack) (s := x) (valid _ rfl) (by
        intro side on p held level code
        have same := free (.stack side x.property) (OptionRecord.stack_mem_facts.mpr ⟨on, rfl⟩)
          (.stack side p) held (by simp [Fact.topic, level, code])
        exact (Fact.stack.inj same).2)
      exact ⟨_, apply_eq_ok.mpr ⟨allowed, g, merged, rfl⟩⟩
  | session x =>
      obtain ⟨g, merged⟩ := SessionGroup.exists_merge (g := s.session) (s := x) fun u held topic =>
        Fact.session.inj (free (.session x) (List.mem_singleton.mpr rfl) (.session u) held topic)
      exact ⟨_, apply_eq_ok.mpr ⟨allowed, g, merged, rfl⟩⟩
  | token x =>
      obtain ⟨g, merged⟩ := TokenGroup.exists_merge (g := s.tokens) (valid _ rfl) fun p held type =>
        Fact.token.inj (free (.token x) (List.mem_singleton.mpr rfl) (.token p) held
          (congrArg Topic.token type))
      exact ⟨_, apply_eq_ok.mpr ⟨allowed, g, merged, rfl⟩⟩
  | advertisement a =>
      obtain ⟨g, merged⟩ := MethodGroup.exists_merge (g := s.methods) (valid _ rfl)
        fun positive n held => Fact.initialDataLength.inj
          (free (.initialDataLength a.initialDataLength)
            (OptionRecord.initialDataLength_mem_facts.mpr ⟨positive, rfl⟩)
            (.initialDataLength n) held rfl)
      exact ⟨_, apply_eq_ok.mpr ⟨allowed, g, merged, rfl⟩⟩
  | authData d =>
      obtain ⟨g, merged⟩ := AuthDataGroup.exists_merge (g := s.authData) valid fun e held topic =>
        Fact.authData.inj (free (.authData d) (List.mem_singleton.mpr rfl) (.authData e) held topic)
      exact ⟨_, apply_eq_ok.mpr ⟨allowed, g, merged, rfl⟩⟩
  | raw frame =>
      have sealed := uninterpreted frame (List.mem_singleton.mpr rfl)
      exact ⟨_, apply_eq_ok.mpr ⟨allowed, sealed, rfl⟩⟩

/-- Nothing contradicts an option if some set says both it and all that is held. -/
theorem exists_apply_of_le (admissible : o.Admissible s.mode)
    (held : ∀ f, s.Holds f → u.Holds f) (stated : ∀ f ∈ o.facts, u.Holds f) :
    ∃ t, s.apply o = .ok t :=
  exists_apply admissible fun f hf g hg topic => holds_unique (held g hg) (stated f hf) topic

/-! ## Runs of options -/

/-- The set with options applied one after the other, if none of them is refused. -/
def applyAll (s : OptionSet) (os : List OptionRecord) : Except Error OptionSet :=
  os.foldlM apply s

theorem applyAll_cons :
    s.applyAll (o :: os) = .ok u ↔ ∃ t, s.apply o = .ok t ∧ t.applyAll os = .ok u := by
  rw [applyAll, List.foldlM_cons, bind_eq_ok]
  rfl

theorem extends_of_applyAll (h : s.applyAll os = .ok t) :
    (∀ o ∈ os, o.Admissible s.mode) ∧
      s.Extends (os.flatMap OptionRecord.facts) (os.flatMap OptionRecord.frames) t := by
  induction os generalizing s with
  | nil =>
      cases h
      exact ⟨nofun, .refl _⟩
  | cons o os ih =>
      obtain ⟨next, applied, rest⟩ := applyAll_cons.mp h
      obtain ⟨admissible, first⟩ := extends_of_apply applied
      obtain ⟨all, behind⟩ := ih rest
      rw [first.mode] at all
      exact ⟨List.forall_mem_cons.mpr ⟨admissible, all⟩, first.trans behind⟩

theorem exists_applyAll_of_le (admissible : ∀ o ∈ os, o.Admissible s.mode)
    (held : ∀ f, s.Holds f → u.Holds f) (stated : ∀ o ∈ os, ∀ f ∈ o.facts, u.Holds f) :
    ∃ t, s.applyAll os = .ok t := by
  induction os generalizing s with
  | nil => exact ⟨s, rfl⟩
  | cons o os ih =>
      obtain ⟨first, all⟩ := List.forall_mem_cons.mp admissible
      obtain ⟨mine, others⟩ := List.forall_mem_cons.mp stated
      obtain ⟨next, applied⟩ := exists_apply_of_le first held mine
      have step := (extends_of_apply applied).2
      obtain ⟨t, rest⟩ := ih (s := next) (by rwa [step.mode])
        (fun f hf => ((step.holds f).mp hf).elim (held f) (mine f)) others
      exact ⟨t, applyAll_cons.mpr ⟨next, applied, rest⟩⟩

end OptionSet

end Socks6
