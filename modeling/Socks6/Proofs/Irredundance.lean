/-
# Socks6.Proofs.Irredundance — a set has no record too many

The records of a set describe it, all of it but the selected method, which no
option says.  They also describe it in as few options as there can be: whatever
options make the set, they are no fewer than its records
(`OptionSet.length_records_le`), since each option that is applied pays for one
record at most.  So no record can be left out
(`OptionSet.records_irredundant`), and a set without records says nothing.
-/
import Socks6.Proofs.Charge

namespace Socks6

namespace OptionSet

variable {s u : OptionSet} {os : List OptionRecord}

/-- The set as far as options make it: the selected method stands in the head of an
envelope and in no option. -/
def unselected (s : OptionSet) : OptionSet :=
  { s with methods := { s.methods with selected := .noAuth } }

@[simp] theorem records_unselected (s : OptionSet) : s.unselected.records = s.records := rfl

/-- Options that make the set are no fewer than its records. -/
theorem length_records_le {mode : Mode} (run : (empty mode).applyAll os = .ok u)
    (same : u.unselected = s.unselected) : s.records.length ≤ os.length := by
  rw [← records_unselected, ← same, records_unselected]
  exact length_records_of_applyAll_empty run

theorem Lawful.isEmpty_iff (h : s.Lawful) :
    s.isEmpty = true ↔ s.unselected = OptionSet.empty s.mode := by
  rw [isEmpty, List.isEmpty_iff]
  constructor
  · intro none
    have run := h.applyAll_records
    rw [none] at run
    exact (Except.ok.inj run).symm
  · intro silent
    rw [← records_unselected, silent, records_empty]

/-- The records of a set that can arise are accepted one after the other and make
it again, the selected method apart; without any one of them they are accepted too
and make another set.  So there are none exactly if the set says nothing. -/
theorem records_irredundant (arises : s.Reachable) :
    (empty s.mode).applyAll s.records = .ok s.unselected ∧
    (∀ before o after, s.records = before ++ o :: after →
      ∃ u, (empty s.mode).applyAll (before ++ after) = .ok u ∧ u.unselected ≠ s.unselected) ∧
    (s.isEmpty = true ↔ s.unselected = empty s.mode) := by
  have lawful := arises.lawful
  refine ⟨lawful.applyAll_records, ?_, lawful.isEmpty_iff⟩
  intro before o after split
  have listed : ∀ p ∈ before ++ after, p ∈ s.records := by
    intro p hp
    rw [split]
    exact ((List.sublist_cons_self o after).append_left before).subset hp
  obtain ⟨u, run⟩ := lawful.exists_applyAll listed
  refine ⟨u, run, ?_⟩
  intro same
  have enough := length_records_le run same
  rw [split, List.length_append, List.length_append, List.length_cons] at enough
  omega

/-- A setting on two legs that differs, two methods of one byte, an announced length,
credentials, a session and a frame that comes twice. -/
theorem records_irredundant_two_legs :
    let s := (empty .request).run [.tos .clientProxy 7, .tos .proxyRemote 8,
      .advertiseMethod (.other 2), .advertiseMethod .usernamePassword, .initialDataLength 5,
      .credentials ⟨⟨[97], by decide⟩, ⟨[98], by decide⟩⟩, .requestSession, .teardown,
      .raw ⟨99, [1]⟩, .raw ⟨99, [1]⟩]
    s.Reachable ∧ s.records.length = 8 ∧
    (empty s.mode).applyAll s.records = .ok s.unselected ∧
    (∀ before o after, s.records = before ++ o :: after →
      ∃ u, (empty s.mode).applyAll (before ++ after) = .ok u ∧ u.unselected ≠ s.unselected) ∧
    (s.isEmpty = true ↔ s.unselected = empty s.mode) := by
  intro s
  have arises : s.Reachable := Reachable.run (.empty .request) _
  exact ⟨arises, by decide, records_irredundant arises⟩

end OptionSet

end Socks6
