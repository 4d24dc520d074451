/-
# Socks6.Proofs.Order — the order of options does not matter

Options that are all accepted one after the other are all accepted in any other
order, and they make the same set (`OptionSet.applyAll_perm`).  Only the frames
that are passed on are kept in the order they came, so among the raw options the
order stays.

Nothing is commuted here pair by pair.  The set that the first order makes says
all that any of the options states, so none of them contradicts another or what
was held before, wherever it is applied.  And what a run makes is determined by
the facts that it states, whose order is not seen, and by its frames, whose order
is that of the raw options (`OptionRecord.flatMap_frames_filter`).  So the options
need not even be the same ones, as long as they state the same
(`OptionSet.applyAll_of_same_facts`).
-/
import Socks6.Proofs.Persistence

namespace Socks6

theorem OptionRecord.flatMap_frames_filter (os : List OptionRecord) :
    (os.filter OptionRecord.isRaw).flatMap OptionRecord.frames =
      os.flatMap OptionRecord.frames := by
  induction os with
  | nil => rfl
  | cons o os ih =>
      rcases kind : o.isRaw
      · rw [List.filter_cons_of_neg (by simp [kind]), List.flatMap_cons,
          frames_of_interpreted kind, ih]
        rfl
      · rw [List.filter_cons_of_pos kind, List.flatMap_cons, List.flatMap_cons, ih]

namespace OptionSet

variable {s t : OptionSet} {os os' : List OptionRecord}

theorem Extends.congr {fs gs : List Fact} {raw : List Frame} (h : s.Extends fs raw t)
    (same : ∀ f, f ∈ fs ↔ f ∈ gs) : s.Extends gs raw t :=
  ⟨h.mode, h.selected, h.raw, fun f => (h.holds f).trans (or_congr_right (same f))⟩

/-- Options that state what accepted ones state, and pass on the same frames, are
accepted in their place and make the same set. -/
theorem applyAll_of_same_facts (accepted : s.applyAll os = .ok t)
    (admissible : ∀ o ∈ os', o.Admissible s.mode)
    (facts : ∀ f, f ∈ os'.flatMap OptionRecord.facts ↔ f ∈ os.flatMap OptionRecord.facts)
    (frames : os'.flatMap OptionRecord.frames = os.flatMap OptionRecord.frames) :
    s.applyAll os' = .ok t := by
  have whole := (extends_of_applyAll accepted).2
  have stated : ∀ o ∈ os', ∀ f ∈ o.facts, t.Holds f := by
    intro o listed f said
    have among := (facts f).mp (List.mem_flatMap.mpr ⟨o, listed, said⟩)
    exact (whole.holds f).mpr (.inr among)
  -- every set on the way says no more than `t` does, so nothing held contradicts what is next
  obtain ⟨u, again⟩ := exists_applyAll_of_le admissible
    (fun f held => (whole.holds f).mpr (.inl held)) stated
  have other := (extends_of_applyAll again).2.congr facts
  rw [frames] at other
  rw [again, other.unique whole]

/-- Options that are accepted in one order are accepted in every other, if the raw
ones among them stay in theirs, and the set is the same. -/
theorem applyAll_perm (accepted : s.applyAll os = .ok t) (perm : os'.Perm os)
    (raws : os'.filter OptionRecord.isRaw = os.filter OptionRecord.isRaw) :
    s.applyAll os' = .ok t := by
  have admissible := (extends_of_applyAll accepted).1
  have frames : os'.flatMap OptionRecord.frames = os.flatMap OptionRecord.frames := by
    rw [← OptionRecord.flatMap_frames_filter, raws, OptionRecord.flatMap_frames_filter]
  refine applyAll_of_same_facts accepted ?_ ?_ frames
  · intro o listed
    exact admissible o (perm.mem_iff.mp listed)
  · intro f
    exact (perm.flatMap_right OptionRecord.facts).mem_iff

/-- One setting for both legs and the same again for one of them, a length and two
methods in three advertisements, and two raw options, which stay in their order. -/
theorem applyAll_perm_shared :
    let os : List OptionRecord := [.stack ⟨.both, .tos 7⟩, .advertisement ⟨5, [.gssapi]⟩,
      .raw ⟨99, [1]⟩, .advertisement ⟨0, [.usernamePassword]⟩, .raw ⟨98, []⟩,
      .stack ⟨.proxyRemote, .tos 7⟩, .advertisement ⟨5, []⟩]
    let os' : List OptionRecord := [.advertisement ⟨5, []⟩, .raw ⟨99, [1]⟩,
      .stack ⟨.proxyRemote, .tos 7⟩, .advertisement ⟨0, [.usernamePassword]⟩, .raw ⟨98, []⟩,
      .advertisement ⟨5, [.gssapi]⟩, .stack ⟨.both, .tos 7⟩]
    ∃ t, (empty .request).applyAll os = .ok t ∧ os'.Perm os ∧
      os'.filter OptionRecord.isRaw = os.filter OptionRecord.isRaw ∧
      (empty .request).applyAll os' = .ok t := by
  intro os os'
  have perm : os'.Perm os := by decide
  exact ⟨_, rfl, perm, rfl, applyAll_perm rfl perm rfl⟩

end OptionSet

end Socks6
