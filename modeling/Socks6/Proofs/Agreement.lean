/-
# Socks6.Proofs.Agreement — contradictions are between two options

Whether options are all accepted, one after the other, is decided by looking at
each of them alone and at every two of them (`OptionSet.applyAll_iff_pairwise`).
No three options contradict each other of which every two agree, and no option that
is applied in between hides a contradiction between two others.

Two options agree if they say the same wherever they speak of the same thing
(`OptionRecord.Agrees`).  That is a matter of what they state, and no set enters
into it.  A set refuses an admissible option just where the option contradicts a
fact that is held (`OptionSet.exists_apply_iff`), and what is held was held at the
start or was stated by an option in front.  So the invariant of a run is that the
set so far agrees with an option exactly if the set at the start did and each
option in front does (`OptionSet.Extends.agrees_iff`).
-/
import Socks6.Proofs.Lawful

namespace Socks6

/-- The options say the same wherever they speak of the same thing. -/
def OptionRecord.Agrees (o p : OptionRecord) : Prop :=
  ∀ f ∈ o.facts, ∀ g ∈ p.facts, f.topic = g.topic → f = g

instance (o p : OptionRecord) : Decidable (o.Agrees p) :=
  inferInstanceAs (Decidable (∀ f ∈ o.facts, ∀ g ∈ p.facts, f.topic = g.topic → f = g))

namespace OptionSet

variable {s t : OptionSet} {o p : OptionRecord} {os : List OptionRecord} {raw : List Frame}

/-- Nothing that the set says contradicts the option. -/
def Agrees (s : OptionSet) (p : OptionRecord) : Prop :=
  ∀ f, s.Holds f → ∀ g ∈ p.facts, f.topic = g.topic → f = g

theorem agrees_empty (mode : Mode) (p : OptionRecord) : (empty mode).Agrees p :=
  fun _ held => absurd held (not_holds_empty mode _)

/-! ## One option -/

/-- An option is accepted exactly if it is admissible and the set agrees with it. -/
theorem exists_apply_iff : (∃ t, s.apply o = .ok t) ↔ o.Admissible s.mode ∧ s.Agrees o := by
  constructor
  · intro accepted
    obtain ⟨t, applied⟩ := accepted
    obtain ⟨admissible, step⟩ := extends_of_apply applied
    refine ⟨admissible, ?_⟩
    intro f held g stated topic
    exact holds_unique ((step.holds f).mpr (.inl held)) ((step.holds g).mpr (.inr stated)) topic
  · intro h
    obtain ⟨admissible, agrees⟩ := h
    exact exists_apply admissible fun g stated f held topic => agrees f held g stated topic

/-- A set that says an option more agrees with what both agree with. -/
theorem Extends.agrees_iff (h : s.Extends o.facts raw t) :
    t.Agrees p ↔ s.Agrees p ∧ o.Agrees p := by
  constructor
  · intro agrees
    exact ⟨fun f held => agrees f ((h.holds f).mpr (.inl held)),
      fun f stated => agrees f ((h.holds f).mpr (.inr stated))⟩
  · intro both
    obtain ⟨before, stated⟩ := both
    intro f held
    exact ((h.holds f).mp held).elim (before f) (stated f)

/-! ## Runs of options -/

/-- Options are accepted one after the other exactly if each of them is admissible,
the set agrees with each, and every two agree with each other. -/
theorem exists_applyAll_iff :
    (∃ t, s.applyAll os = .ok t) ↔
      (∀ o ∈ os, o.Admissible s.mode ∧ s.Agrees o) ∧ os.Pairwise OptionRecord.Agrees := by
  -- the options behind the first one meet a set that says the first one too
  induction os generalizing s with
  | nil => exact iff_of_true ⟨s, rfl⟩ ⟨nofun, .nil⟩
  | cons o os ih =>
      rw [List.forall_mem_cons, List.pairwise_cons]
      constructor
      · intro accepted
        obtain ⟨u, run⟩ := accepted
        obtain ⟨t, applied, rest⟩ := applyAll_cons.mp run
        have step := (extends_of_apply applied).2
        obtain ⟨each, pairs⟩ := ih.mp ⟨u, rest⟩
        rw [step.mode] at each
        refine ⟨⟨exists_apply_iff.mp ⟨t, applied⟩, fun p later => ?_⟩, fun p later => ?_, pairs⟩
        · obtain ⟨admissible, agrees⟩ := each p later
          exact ⟨admissible, (step.agrees_iff.mp agrees).1⟩
        · exact (step.agrees_iff.mp (each p later).2).2
      · intro h
        obtain ⟨⟨first, each⟩, agrees, pairs⟩ := h
        obtain ⟨t, applied⟩ := exists_apply_iff.mpr first
        have step := (extends_of_apply applied).2
        have behind : ∀ p ∈ os, p.Admissible t.mode ∧ t.Agrees p := by
          intro p later
          obtain ⟨admissible, before⟩ := each p later
          rw [step.mode]
          exact ⟨admissible, step.agrees_iff.mpr ⟨before, agrees p later⟩⟩
        obtain ⟨u, rest⟩ := ih.mpr ⟨behind, pairs⟩
        exact ⟨u, applyAll_cons.mpr ⟨t, applied, rest⟩⟩

theorem exists_apply_empty_iff {mode : Mode} :
    (∃ t, (empty mode).apply o = .ok t) ↔ o.Admissible mode :=
  exists_apply_iff.trans (and_iff_left (agrees_empty mode o))

theorem exists_applyAll_empty_iff {mode : Mode} :
    (∃ t, (empty mode).applyAll os = .ok t) ↔
      (∀ o ∈ os, o.Admissible mode) ∧ os.Pairwise OptionRecord.Agrees := by
  rw [exists_applyAll_iff]
  refine and_congr_left fun _ => forall₂_congr fun o _ => ?_
  exact and_iff_left (agrees_empty mode o)

/-- Options are all accepted one after the other exactly if each is accepted alone,
and of every two the second is accepted behind the first. -/
theorem applyAll_iff_pairwise (mode : Mode) (os : List OptionRecord) :
    (∃ t, (empty mode).applyAll os = .ok t) ↔
      (∀ o ∈ os, ∃ t, (empty mode).apply o = .ok t) ∧
      os.Pairwise fun o p => ∃ t, (empty mode).applyAll [o, p] = .ok t := by
  simp only [exists_apply_empty_iff, exists_applyAll_empty_iff]
  refine and_congr_right fun admissible => List.Pairwise.iff_of_mem ?_
  intro o p ho hp
  constructor
  · intro agrees
    exact ⟨by simp [admissible o ho, admissible p hp], List.pairwise_pair.mpr agrees⟩
  · intro both
    exact List.pairwise_pair.mp both.2

end OptionSet

end Socks6
