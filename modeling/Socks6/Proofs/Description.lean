/-
# Socks6.Proofs.Description — the records of a set describe it

`OptionSet.records` turns a set back into options.  Of a lawful set they state
exactly the facts that it holds, they are admissible, and they pass on its frames
in order; so applied to an empty set they give the set again, except for the
selected method, which is not an option.
-/
import Socks6.Proofs.Lawful

namespace Socks6

/-! ## Groups -/

namespace Legs

variable {α : Type} [DecidableEq α] {l : Legs α} {v : α}

theorem exists_entry {side : Side} :
    (∃ e ∈ l.entries, side ∈ e.1.sides ∧ e.2 = v) ↔ l.value side = some v := by
  obtain ⟨near, far⟩ := l
  by_cases same : near = far
  · subst same
    cases near <;> cases side <;> simp [entries, common, value, Leg.sides]
  · cases side <;> simp [entries, common, same, value, Leg.sides, or_and_right, exists_or]

end Legs

namespace StackGroup

variable {g : StackGroup} {side : Side} {p : StackProperty}

theorem exists_setting {α : Type} [DecidableEq α] {property : α → StackProperty} {l : Legs α} :
    (∃ x ∈ settingsOf property l, side ∈ x.leg.sides ∧ x.property = p) ↔
      ∃ v, l.value side = some v ∧ property v = p := by
  simp only [settingsOf, List.mem_map, ← Legs.exists_entry]
  constructor
  · intro h
    obtain ⟨_, ⟨⟨leg, v⟩, entry, rfl⟩, on, eq⟩ := h
    exact ⟨v, ⟨_, entry, on, rfl⟩, eq⟩
  · intro h
    obtain ⟨_, ⟨⟨leg, v⟩, entry, on, rfl⟩, eq⟩ := h
    exact ⟨_, ⟨_, entry, rfl⟩, on, eq⟩

theorem exists_settings :
    (∃ x ∈ g.settings, side ∈ x.leg.sides ∧ x.property = p) ↔ g.Holds side p := by
  simp only [settings, List.mem_append, or_and_right, exists_or, exists_setting]
  cases p <;> simp [Holds]

end StackGroup

namespace TokenGroup

variable {g : TokenGroup} {o : TokenOption}

theorem mem_options : o ∈ g.options ↔ g.Holds o := by
  cases o <;> simp [options, Holds]

end TokenGroup

namespace SessionGroup

variable {g g' : SessionGroup} {s : SessionSignal}

theorem mem_signals : s ∈ g.signals ↔ g.Holds s := by
  obtain ⟨state, teardown, untrusted⟩ := g
  cases s <;> cases teardown <;> cases untrusted <;> simp [signals, Holds]

end SessionGroup

namespace AuthDataGroup

variable {g g' : AuthDataGroup} {d : AuthData}

/-- Credentials are described first, so a verdict is described only without them. -/
theorem mem_data (one : g.credentials = none ∨ g.verdict = none) : g.data = some d ↔ g.Holds d := by
  obtain ⟨credentials, verdict⟩ := g
  cases d <;> cases credentials <;> cases verdict <;> simp_all [data, Holds]

end AuthDataGroup

namespace MethodGroup

variable {g : MethodGroup} {a : Advertisement}

theorem advertisement_eq_some :
    g.advertisement = some a ↔ (g.advertised.toList ≠ [] ∨ g.initialDataLength ≠ none) ∧
      ⟨g.initialDataLength.getD 0, g.advertised.toList⟩ = a := by
  obtain ⟨⟨methods, ascending⟩, length, selected⟩ := g
  cases methods <;> cases length <;> simp [advertisement, MethodSet.isEmpty]

theorem advertisement_eq_none :
    g.advertisement = none ↔ g.advertised.toList = [] ∧ g.initialDataLength = none := by
  obtain ⟨⟨methods, ascending⟩, length, selected⟩ := g
  cases methods <;> cases length <;> simp [advertisement, MethodSet.isEmpty]

end MethodGroup

namespace OptionSet

variable {s : OptionSet} {o : OptionRecord} {f : Fact}

/-! ## The records of a set -/

theorem flatMap_frames_records (s : OptionSet) : s.records.flatMap OptionRecord.frames = s.raw := by
  have none {α : Type} (xs : List α) : xs.flatMap (fun _ => ([] : List Frame)) = [] :=
    List.flatMap_eq_nil_iff.mpr fun _ _ => rfl
  simp [records, List.flatMap_append, List.flatMap_map, OptionRecord.frames, none]

theorem mem_records :
    o ∈ s.records ↔
      match o with
      | .stack x => x ∈ s.stack.settings
      | .session u => s.session.Holds u
      | .token p => s.tokens.Holds p
      | .advertisement a => s.methods.advertisement = some a
      | .authData d => s.authData.data = some d
      | .raw frame => frame ∈ s.raw := by
  cases o <;> simp [records, SessionGroup.mem_signals, TokenGroup.mem_options]

namespace Lawful

theorem credentials_or_verdict (h : s.Lawful) :
    s.authData.credentials = none ∨ s.authData.verdict = none := by
  rcases credentials : s.authData.credentials with _ | c
  · exact .inl rfl
  · rcases verdict : s.authData.verdict with _ | success
    · exact .inr rfl
    · have request := (h.facts (.authData (.credentials c)) credentials).option.allowed
      have reply := (h.facts (.authData (.verdict success)) verdict).option.allowed
      simp only [Fact.option, OptionRecord.allowedIn, decide_eq_true_eq] at request reply
      rw [request] at reply
      cases reply

theorem noAuth_not_advertised (h : s.Lawful) : .noAuth ∉ s.methods.advertised.toList := by
  intro listed
  have alone := (h.facts (.method .noAuth) listed).alone
  cases alone

theorem initialDataLength_ne_zero (h : s.Lawful) : s.methods.initialDataLength ≠ some 0 := by
  intro zero
  have alone := (h.facts (.initialDataLength 0) zero).alone
  cases alone

theorem mem_facts_advertisement {a : Advertisement} (h : s.Lawful)
    (described : s.methods.advertisement = some a) :
    f ∈ (OptionRecord.advertisement a).facts ↔
      match f with
      | .initialDataLength n => s.methods.initialDataLength = some n
      | .method m => m ∈ s.methods.advertised.toList
      | _ => False := by
  obtain ⟨-, rfl⟩ := MethodGroup.advertisement_eq_some.mp described
  cases f with
  | initialDataLength n =>
      rw [OptionRecord.initialDataLength_mem_facts]
      have positive := h.initialDataLength_ne_zero
      revert positive
      rcases s.methods.initialDataLength with _ | k
      · simp
      · simp only [ne_eq, Option.some.injEq, Option.getD_some]
        intro positive
        constructor
        · intro taken
          obtain ⟨-, rfl⟩ := taken
          rfl
        · rintro rfl
          exact ⟨positive, rfl⟩
  | method m =>
      rw [OptionRecord.method_mem_facts, Advertisement.emitted, List.mem_filter]
      refine ⟨And.left, fun listed => ⟨listed, decide_eq_true ?_⟩⟩
      rintro rfl
      exact h.noAuth_not_advertised listed
  | _ => simp [OptionRecord.facts]

theorem exists_advertisement (said : s.methods.advertised.toList ≠ [] ∨
    s.methods.initialDataLength ≠ none) : ∃ a, s.methods.advertisement = some a :=
  ⟨_, MethodGroup.advertisement_eq_some.mpr ⟨said, rfl⟩⟩

/-- The records of a lawful set state exactly what it holds. -/
theorem holds_iff (h : s.Lawful) : s.Holds f ↔ ∃ o ∈ s.records, f ∈ o.facts := by
  constructor
  · intro held
    cases f with
    | stack side p =>
        obtain ⟨x, listed, on, eq⟩ := StackGroup.exists_settings.mpr held
        exact ⟨.stack x, mem_records.mpr listed, OptionRecord.stack_mem_facts.mpr ⟨on, eq.symm⟩⟩
    | token p => exact ⟨.token p, mem_records.mpr held, List.mem_singleton.mpr rfl⟩
    | session u => exact ⟨.session u, mem_records.mpr held, List.mem_singleton.mpr rfl⟩
    | authData d =>
        have described := (AuthDataGroup.mem_data h.credentials_or_verdict).mpr held
        exact ⟨.authData d, mem_records.mpr described, List.mem_singleton.mpr rfl⟩
    | initialDataLength n =>
        have length : s.methods.initialDataLength = some n := held
        obtain ⟨a, described⟩ := exists_advertisement (s := s) (.inr (by simp [length]))
        exact ⟨.advertisement a, mem_records.mpr described,
          (h.mem_facts_advertisement described).mpr held⟩
    | method m =>
        obtain ⟨a, described⟩ := exists_advertisement (s := s) (.inl (List.ne_nil_of_mem held))
        exact ⟨.advertisement a, mem_records.mpr described,
          (h.mem_facts_advertisement described).mpr held⟩
  · intro taken
    obtain ⟨o, listed, stated⟩ := taken
    have described := mem_records.mp listed
    cases o with
    | stack x =>
        obtain ⟨side, on, rfl⟩ := List.mem_map.mp stated
        exact StackGroup.exists_settings.mp ⟨x, described, on, rfl⟩
    | token p =>
        obtain rfl := List.mem_singleton.mp stated
        exact described
    | session u =>
        obtain rfl := List.mem_singleton.mp stated
        exact described
    | authData d =>
        obtain rfl := List.mem_singleton.mp stated
        exact (AuthDataGroup.mem_data h.credentials_or_verdict).mp described
    | advertisement a =>
        have said := (h.mem_facts_advertisement described).mp stated
        cases f with
        | initialDataLength n => exact said
        | method m => exact said
        | _ => exact said.elim
    | raw frame => cases stated

theorem facts_ne_nil (h : s.Lawful) (listed : o ∈ s.records) (interpreted : o.isRaw = false) :
    o.facts ≠ [] := by
  have described := mem_records.mp listed
  cases o with
  | stack x => cases leg : x.leg <;> simp [OptionRecord.facts, leg, Leg.sides]
  | advertisement a =>
      rcases (MethodGroup.advertisement_eq_some.mp described).1 with listed | length
      · obtain ⟨m, offered⟩ := List.exists_mem_of_ne_nil _ listed
        exact List.ne_nil_of_mem
          ((h.mem_facts_advertisement (f := .method m) described).mpr offered)
      · obtain ⟨n, announced⟩ := Option.ne_none_iff_exists'.mp length
        exact List.ne_nil_of_mem
          ((h.mem_facts_advertisement (f := .initialDataLength n) described).mpr announced)
  | raw frame => cases interpreted
  | _ => exact List.cons_ne_nil _ _

theorem admissible (h : s.Lawful) (listed : o ∈ s.records) : o.Admissible s.mode := by
  rcases raw : o.isRaw
  · refine OptionRecord.admissible_of_facts (h.facts_ne_nil listed raw) fun f stated => ?_
    exact h.facts f (h.holds_iff.mpr ⟨o, listed, stated⟩)
  · cases o with
    | raw frame =>
        refine ⟨rfl, nofun, fun f passed => ?_⟩
        obtain rfl := List.mem_singleton.mp passed
        exact h.raw f (mem_records.mp listed)
    | _ => cases raw

/-- Other records than the advertisement are found again as they are. -/
theorem readable_of_ne (h : s.Lawful) (listed : o ∈ s.records)
    (other : ∀ a, o ≠ .advertisement a) : o.Readable s.mode := by
  have admissible := h.admissible listed
  cases o with
  | stack x => exact admissible.inRange _ rfl
  | session u => trivial
  | token p => exact admissible.inRange _ rfl
  | advertisement a => exact absurd rfl (other a)
  | authData d =>
      have allowed := admissible.allowed
      cases d <;> exact (of_decide_eq_true allowed).symm
  | raw frame => exact h.raw frame (mem_records.mp listed)

theorem readable (h : s.Lawful) (canonical : ∀ m ∈ s.methods.advertised.toList, m.Canonical)
    (listed : o ∈ s.records) : o.Readable s.mode := by
  cases o with
  | advertisement a =>
      obtain ⟨-, rfl⟩ := MethodGroup.advertisement_eq_some.mp (mem_records.mp listed)
      exact ⟨canonical, h.noAuth_not_advertised⟩
  | _ => exact h.readable_of_ne listed nofun

/-- Records of a lawful set can be applied to an empty one, whichever they are. -/
theorem exists_applyAll {os : List OptionRecord} (h : s.Lawful) (listed : ∀ o ∈ os, o ∈ s.records) :
    ∃ t, (OptionSet.empty s.mode).applyAll os = .ok t :=
  exists_applyAll_of_le (u := s) (fun o ho => h.admissible (listed o ho))
    (fun _ held => absurd held (not_holds_empty _ _))
    (fun o ho _ stated => h.holds_iff.mpr ⟨o, listed o ho, stated⟩)

/-- The records, applied to an empty set, give the set again, but for the selected method. -/
theorem applyAll_records (h : s.Lawful) :
    (OptionSet.empty s.mode).applyAll s.records =
      .ok { s with methods := { s.methods with selected := .noAuth } } := by
  obtain ⟨t, run⟩ := h.exists_applyAll fun _ listed => listed
  have step := (extends_of_applyAll run).2
  rw [run]
  refine congrArg Except.ok (step.unique ⟨rfl, rfl, ?_, fun f => ?_⟩)
  · rw [flatMap_frames_records]
    rfl
  · have same : OptionSet.Holds { s with methods := { s.methods with selected := .noAuth } } f ↔
        s.Holds f := by
      cases f <;> exact Iff.rfl
    rw [same, h.holds_iff, List.mem_flatMap]
    exact (or_iff_right (not_holds_empty s.mode f)).symm

end Lawful

theorem records_empty (mode : Mode) : (empty mode).records = [] := by
  have lawful := Lawful.empty mode
  refine List.eq_nil_iff_forall_not_mem.mpr fun o listed => ?_
  rcases raw : o.isRaw
  · obtain ⟨f, stated⟩ := List.exists_mem_of_ne_nil _ (lawful.facts_ne_nil listed raw)
    exact not_holds_empty mode f (lawful.holds_iff.mpr ⟨o, listed, stated⟩)
  · cases o with
    | raw frame => cases mem_records.mp listed
    | _ => cases raw

end OptionSet

end Socks6
