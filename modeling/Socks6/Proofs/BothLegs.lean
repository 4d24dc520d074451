/-
# Socks6.Proofs.BothLegs — a setting for both legs is two settings

A property of the stack can be set on one leg of the connection or on both at
once, and the two do not go the same way: for both legs each slot is looked at
before one is assigned, while settings for single legs look and assign one after
the other.  They come to the same all the same (`OptionSet.update_both`).  What a
set takes depends on the facts that are stated (`applyAll_of_same_facts`), and a
setting for both legs states just what two settings for single legs state.  They
differ where they fail: of the two settings the first may be taken, of the one for
both legs nothing is.

The description of the set goes the other way.  Legs that hold the same value are
described by one entry, so the field that was set has one record, and it is the
setting for both legs, however it came about.
-/
import Socks6.Proofs.Description
import Socks6.Proofs.Order
import Socks6.Proofs.Refusal

namespace Socks6

open UpdateM

/-! ## Fields on both legs -/

namespace Legs

variable {α : Type} [DecidableEq α] {l : Legs α} {leg : Leg} {v : α}

/-- What is got for a leg is what is set on it; for both, what is set on each of them. -/
theorem get_eq_some : l.get leg = some v ↔ ∀ side ∈ leg.sides, l.value side = some v := by
  obtain ⟨near, far⟩ := l
  cases leg with
  | clientProxy => simp [get, value, Leg.sides]
  | proxyRemote => simp [get, value, Leg.sides]
  | both =>
      by_cases same : near = far
      · subst same
        simp [get, common, value, Leg.sides]
      · have differ : ¬(near = some v ∧ far = some v) := fun set => same (set.1.trans set.2.symm)
        simpa [get, common, value, Leg.sides, same] using differ

theorem entries_of_get_both (set : l.get .both = some v) : l.entries = [(.both, v)] := by
  have agreed : l.common = some v := set
  rw [entries, agreed]

end Legs

/-- The two are values of one field. -/
def StackProperty.sameField (p q : StackProperty) : Bool := p.level = q.level ∧ p.code = q.code

namespace StackGroup

variable {α : Type} [DecidableEq α] {property : α → StackProperty} {l : Legs α} {v : α}
  {g : StackGroup} {leg : Leg} {p : StackProperty}

/-- The field of the property has its value on the leg. -/
def Gets (g : StackGroup) (leg : Leg) : StackProperty → Prop
  | .tos value => g.tos.get leg = some value
  | .fastOpen size => g.fastOpen.get leg = some size
  | .multipath flag => g.multipath.get leg = some flag
  | .scheduler how => g.scheduler.get leg = some how
  | .backlog n => g.backlog.get leg = some n

theorem gets_iff : g.Gets leg p ↔ ∀ side ∈ leg.sides, g.Holds side p := by
  cases p <;> exact Legs.get_eq_some

theorem filter_settingsOf_eq_nil (other : ∀ v, (property v).sameField p = false) (l : Legs α) :
    (settingsOf property l).filter (·.property.sameField p) = [] := by
  refine List.filter_eq_nil_iff.mpr fun x listed => ?_
  obtain ⟨e, -, rfl⟩ := List.mem_map.mp listed
  rw [other e.2]
  exact Bool.false_ne_true

theorem filter_settingsOf_of_get_both (set : l.get .both = some v) :
    (settingsOf property l).filter (·.property.sameField (property v)) =
      [⟨.both, property v⟩] := by
  rw [settingsOf, Legs.entries_of_get_both set]
  simp [StackProperty.sameField]

theorem filter_settings_of_gets (set : g.Gets .both p) :
    g.settings.filter (·.property.sameField p) = [⟨.both, p⟩] := by
  simp only [settings, List.filter_append]
  cases p
  all_goals
    rw [filter_settingsOf_of_get_both set]
    repeat rw [filter_settingsOf_eq_nil fun _ => rfl]
    rfl

end StackGroup

namespace OptionRecord

/-- The record sets the field that the property is a value of. -/
def isAbout (p : StackProperty) : OptionRecord → Bool
  | .stack x => x.property.sameField p
  | _ => false

/-- On which leg a property is set has no influence on whether it may be set. -/
theorem Admissible.onLeg {mode : Mode} {leg : Leg} {p : StackProperty}
    (h : (OptionRecord.stack ⟨leg, p⟩).Admissible mode) (leg' : Leg) :
    (OptionRecord.stack ⟨leg', p⟩).Admissible mode := by
  have allowed := h.allowed
  refine .of_interpreted rfl ?_ h.inRange
  cases p <;> exact allowed

end OptionRecord

namespace OptionSet

variable {s t : OptionSet} {p : StackProperty}

theorem filter_records_isAbout (s : OptionSet) (p : StackProperty) :
    s.records.filter (·.isAbout p) =
      (s.stack.settings.filter (·.property.sameField p)).map .stack := by
  simp only [records, List.filter_append, List.filter_map, Function.comp_def,
    OptionRecord.isAbout, List.filter_false, List.map_nil, List.append_nil]

/-! ## One setting and two -/

/-- A setting for both legs is taken exactly if the two settings for single legs are,
one after the other, and then the sets are the same. -/
theorem apply_both_eq_ok :
    s.apply (.stack ⟨.both, p⟩) = .ok t ↔
      ∃ u, s.apply (.stack ⟨.clientProxy, p⟩) = .ok u ∧
        u.apply (.stack ⟨.proxyRemote, p⟩) = .ok t := by
  let near : OptionRecord := .stack ⟨.clientProxy, p⟩
  let far : OptionRecord := .stack ⟨.proxyRemote, p⟩
  let both : OptionRecord := .stack ⟨.both, p⟩
  have two : s.applyAll [near, far] = .ok t ↔
      ∃ u, s.apply near = .ok u ∧ u.apply far = .ok t := by
    rw [applyAll_cons]
    simp only [applyAll_singleton]
  rw [← applyAll_singleton, ← two]
  constructor
  · intro accepted
    have admissible := (extends_of_applyAll accepted).1 both (List.mem_singleton.mpr rfl)
    refine applyAll_of_same_facts accepted (fun o listed => ?_) (fun _ => Iff.rfl) rfl
    rcases List.mem_pair.mp listed with rfl | rfl
    · exact admissible.onLeg .clientProxy
    · exact admissible.onLeg .proxyRemote
  · intro accepted
    have admissible := (extends_of_applyAll accepted).1 near List.mem_cons_self
    refine applyAll_of_same_facts accepted (fun o listed => ?_) (fun _ => Iff.rfl) rfl
    obtain rfl := List.mem_singleton.mp listed
    exact admissible.onLeg .both

theorem gets_of_apply_both (h : s.apply (.stack ⟨.both, p⟩) = .ok t) (leg : Leg) :
    t.stack.Gets leg p := by
  refine StackGroup.gets_iff.mpr fun side _ => ?_
  have every : side ∈ Leg.both.sides := by cases side <;> decide
  have stated : Fact.stack side p ∈ (OptionRecord.stack ⟨.both, p⟩).facts :=
    OptionRecord.stack_mem_facts.mpr ⟨every, rfl⟩
  exact ((extends_of_apply h).2.holds _).mpr (.inr stated)

/-- Setting a property on both legs at once succeeds exactly if setting it on one and
then on the other does, and then makes the same set; if it fails the set is as it
was, even where one of the two would have been set.  After it the value is got for
each leg and for both, and one record says so. -/
theorem update_both (s : OptionSet) (p : StackProperty) :
    let near : OptionRecord := .stack ⟨.clientProxy, p⟩
    let far : OptionRecord := .stack ⟨.proxyRemote, p⟩
    let both : OptionRecord := .stack ⟨.both, p⟩
    (∀ t, (update both).on s = (.ok (), t) ↔
      ∃ u, (update near).on s = (.ok (), u) ∧ (update far).on u = (.ok (), t)) ∧
    (∀ e t, (update both).on s = (.error e, t) → t = s) ∧
    ∀ t, (update both).on s = (.ok (), t) →
      (∀ leg, t.stack.Gets leg p) ∧ t.records.filter (·.isAbout p) = [both] := by
  intro near far both
  refine ⟨fun t => ?_, fun e t refused => ?_, fun t done => ?_⟩
  · simp only [(performs_update _).on_eq_ok]
    exact apply_both_eq_ok
  · exact ((performs_update both).on_eq_error.mp refused).2.symm
  · have applied := (performs_update both).on_eq_ok.mp done
    have set := gets_of_apply_both applied
    refine ⟨set, ?_⟩
    rw [filter_records_isAbout, StackGroup.filter_settings_of_gets (set .both)]
    rfl

/-- The second leg holds the value already.  It is set on both all the same, and the record
for the one leg becomes a record for both. -/
theorem update_both_shared :
    let s := ((update (.stack ⟨.proxyRemote, .tos 16⟩)).on (empty .request)).2
    s.records = [.stack ⟨.proxyRemote, .tos 16⟩] ∧
    ∃ t, (update (.stack ⟨.both, .tos 16⟩)).on s = (.ok (), t) ∧
      (∃ u, (update (.stack ⟨.clientProxy, .tos 16⟩)).on s = (.ok (), u) ∧
        (update (.stack ⟨.proxyRemote, .tos 16⟩)).on u = (.ok (), t)) ∧
      (∀ leg, t.stack.Gets leg (.tos 16)) ∧
      t.records.filter (·.isAbout (.tos 16)) = [.stack ⟨.both, .tos 16⟩] := by
  intro s
  obtain ⟨two, -, after⟩ := update_both s (.tos 16)
  have done : (update (.stack ⟨.both, .tos 16⟩)).on s =
      (.ok (), ((update (.stack ⟨.both, .tos 16⟩)).on s).2) := rfl
  obtain ⟨gets, one⟩ := after _ done
  exact ⟨rfl, _, done, (two _).mp done, gets, one⟩

/-- The value is refused for both legs because of what is set on the second one; the
first one alone would have taken it. -/
example :
    let s := ((update (.stack ⟨.proxyRemote, .tos 32⟩)).on (empty .request)).2
    ((update (.stack ⟨.clientProxy, .tos 16⟩)).on s).1 = .ok () ∧
      (update (.stack ⟨.both, .tos 16⟩)).on s = (.error (.conflict "tos" "32" "16"), s) :=
  ⟨rfl, rfl⟩

end OptionSet

end Socks6
