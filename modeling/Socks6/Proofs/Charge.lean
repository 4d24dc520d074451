/-
# Socks6.Proofs.Charge — what the records of a set cost

A set has no more records than options were applied to it, and they are no longer
than the records of these options were.  Both are accounts of one kind.  A tariff
puts a price on every record, by the length of its body; an option that is applied
pays for its own record, and what was paid covers the records of the set at any
time (`OptionSet.charge_of_applyAll`).

What an option does to the records is to add its own, to change none, or to make
one record of two or two of one: a second leg with another value has a record of
its own, two legs that agree share one, and all methods stand in one record.  Only
there do two records of different lengths become one, so the price of methods must
not favour records that are divided (`Tariff.joined`).
-/
import Socks6.Proofs.Description

namespace Socks6

/-! ## Tariffs -/

/-- A price for records.  A longer body costs no less, and a list of methods costs no
more in one record than in two. -/
structure Tariff where
  /-- The price of an interpreted record with a body of this length. -/
  body : Nat → Nat
  /-- The price of a record that is passed on. -/
  frame : Frame → Nat
  mono : ∀ {m n : Nat}, m ≤ n → body m ≤ body n
  joined : ∀ m n : Nat, body (2 + (m + n)) ≤ body (2 + m) + body (2 + n)

namespace Tariff

/-- Records are counted. -/
def count : Tariff where
  body _ := 1
  frame _ := 1
  mono := fun _ => Nat.le_refl 1
  joined := fun _ _ => Nat.le_succ 1

theorem bare_joined (m n : Nat) : Frame.headerSize + (2 + (m + n)) ≤
    Frame.headerSize + (2 + m) + (Frame.headerSize + (2 + n)) := by
  omega

/-- Records are measured without padding. -/
def bare : Tariff where
  body n := Frame.headerSize + n
  frame := Frame.size
  mono := fun less => Nat.add_le_add_left less _
  joined := bare_joined

theorem padded_mono {m n : Nat} (less : m ≤ n) :
    Frame.headerSize + Alignment.padded m Frame.headerSize ≤
      Frame.headerSize + Alignment.padded n Frame.headerSize := by
  simp only [Frame.headerSize, Alignment.padded, Alignment.gap, Alignment.unit]
  omega

theorem padded_joined (m n : Nat) :
    Frame.headerSize + Alignment.padded (2 + (m + n)) Frame.headerSize ≤
      Frame.headerSize + Alignment.padded (2 + m) Frame.headerSize +
        (Frame.headerSize + Alignment.padded (2 + n) Frame.headerSize) := by
  simp only [Frame.headerSize, Alignment.padded, Alignment.gap, Alignment.unit]
  omega

/-- Records are measured as they are written. -/
def padded : Tariff where
  body n := Frame.headerSize + Alignment.padded n Frame.headerSize
  frame := Frame.size
  mono := padded_mono
  joined := padded_joined

end Tariff

variable {u : Tariff}

namespace OptionRecord

/-- What the record costs. -/
def charge (u : Tariff) : OptionRecord → Nat
  | .raw frame => u.frame frame
  | o => u.body o.bodySize

theorem charge_count (o : OptionRecord) : o.charge .count = 1 := by
  cases o <;> rfl

theorem charge_padded (o : OptionRecord) : o.charge .padded = o.size := by
  cases o <;> rfl

end OptionRecord

/-! ## Groups -/

namespace Legs

theorem length_entries {α : Type} [DecidableEq α] (near far : Option α) :
    (Legs.mk near far).entries.length =
      if near = far then near.toList.length else near.toList.length + far.toList.length := by
  by_cases same : near = far
  · subst same
    cases near <;> simp [entries, common]
  · simp [entries, common, same]

theorem length_entries_le {α : Type} [DecidableEq α] (l : Legs α) : l.entries.length ≤ 2 := by
  obtain ⟨near, far⟩ := l
  have first : near.toList.length ≤ 1 := Option.length_toList_le
  have second : far.toList.length ≤ 1 := Option.length_toList_le
  rw [length_entries]
  split <;> omega

theorem length_entries_of_merge {α : Type} [DecidableEq α] [Shown α] {l l' : Legs α}
    {field : String} {leg : Leg} {v : α} (h : l.merge field leg v = .ok l') :
    l'.entries.length ≤ l.entries.length + 1 := by
  obtain ⟨near, far⟩ := l
  obtain ⟨near', far'⟩ := l'
  rw [length_entries, length_entries]
  cases leg with
  | clientProxy =>
      obtain ⟨_, merged, eq⟩ := bind_eq_ok.mp h
      obtain ⟨free, rfl⟩ := Slot.merge_eq_ok.mp merged
      cases pure_eq_ok.mp eq
      cases near with
      | none => cases far <;> simp; split <;> simp
      | some held =>
          obtain rfl := free held rfl
          exact Nat.le_succ _
  | proxyRemote =>
      obtain ⟨_, merged, eq⟩ := bind_eq_ok.mp h
      obtain ⟨free, rfl⟩ := Slot.merge_eq_ok.mp merged
      cases pure_eq_ok.mp eq
      cases far with
      | none => cases near <;> simp; split <;> simp
      | some held =>
          obtain rfl := free held rfl
          exact Nat.le_succ _
  | both =>
      obtain ⟨-, h⟩ := andThen_eq_ok.mp h
      obtain ⟨-, eq⟩ := andThen_eq_ok.mp h
      cases pure_eq_ok.mp eq
      simp

end Legs

namespace StackGroup

theorem sum_settingsOf {α : Type} [DecidableEq α] (property : α → StackProperty) {n : Nat}
    (width : ∀ v, (property v).valueSize = n) (w : Nat → Nat) (l : Legs α) :
    ((settingsOf property l).map fun x => w x.bodySize).sum = l.entries.length * w (3 + n) := by
  have each : ∀ k ∈ (settingsOf property l).map fun x => w x.bodySize, k = w (3 + n) := by
    intro k priced
    obtain ⟨x, listed, rfl⟩ := List.mem_map.mp priced
    obtain ⟨e, -, rfl⟩ := List.mem_map.mp listed
    exact congrArg (fun m => w (3 + m)) (width e.2)
  rw [List.eq_replicate_of_mem each, List.sum_replicate, smul_eq_mul, List.length_map, settingsOf,
    List.length_map]

theorem sum_settings (w : Nat → Nat) (g : StackGroup) :
    (g.settings.map fun x => w x.bodySize).sum =
      g.tos.entries.length * w 4 + g.fastOpen.entries.length * w 5 +
        g.multipath.entries.length * w 4 + g.scheduler.entries.length * w 4 +
        g.backlog.entries.length * w 5 := by
  have tos := sum_settingsOf .tos (fun _ => rfl) w g.tos
  have fastOpen := sum_settingsOf .fastOpen (fun _ => rfl) w g.fastOpen
  have multipath := sum_settingsOf .multipath (fun _ => rfl) w g.multipath
  have scheduler := sum_settingsOf .scheduler (fun _ => rfl) w g.scheduler
  have backlog := sum_settingsOf .backlog (fun _ => rfl) w g.backlog
  simp only [settings, List.map_append, List.sum_append, tos, fastOpen, multipath, scheduler,
    backlog]

theorem charge_of_merge {g g' : StackGroup} {s : StackSetting} (h : g.merge s = .ok g') :
    (g'.settings.map fun x => u.body x.bodySize).sum ≤
      (g.settings.map fun x => u.body x.bodySize).sum + u.body s.bodySize := by
  obtain ⟨leg, property⟩ := s
  obtain ⟨-, h⟩ := andThen_eq_ok.mp h
  rw [sum_settings, sum_settings]
  have one {m n : Nat} (k : Nat) (grown : m ≤ n + 1) : m * k ≤ n * k + k :=
    (Nat.mul_le_mul_right k grown).trans_eq (Nat.succ_mul n k)
  cases property
  all_goals
    obtain ⟨l, merged, eq⟩ := bind_eq_ok.mp h
    obtain rfl := pure_eq_ok.mp eq
    have short := one (u.body 4) (Legs.length_entries_of_merge merged)
    have long := one (u.body 5) (Legs.length_entries_of_merge merged)
    simp only [StackSetting.bodySize, StackProperty.valueSize, Nat.reduceAdd]
    omega

end StackGroup

theorem TokenGroup.charge_of_merge {g g' : TokenGroup} {o : TokenOption} (h : g.merge o = .ok g') :
    (g'.options.map fun x => u.body x.bodySize).sum ≤
      (g.options.map fun x => u.body x.bodySize).sum + u.body o.bodySize := by
  obtain ⟨-, h⟩ := andThen_eq_ok.mp h
  cases o
  all_goals
    obtain ⟨_, merged, eq⟩ := bind_eq_ok.mp h
    obtain rfl := pure_eq_ok.mp eq
    obtain ⟨-, rfl⟩ := Slot.merge_eq_ok.mp merged
    simp only [options, List.map_append, List.sum_append, Option.toList_some, List.map_cons,
      List.map_nil, List.sum_singleton]
    omega

theorem SessionGroup.charge_of_merge {g g' : SessionGroup} {s : SessionSignal}
    (h : g.merge s = .ok g') :
    (g'.signals.map fun x => u.body x.bodySize).sum ≤
      (g.signals.map fun x => u.body x.bodySize).sum + u.body s.bodySize := by
  obtain ⟨state, teardown, untrusted⟩ := g
  cases s with
  | state y =>
      obtain ⟨_, merged, eq⟩ := bind_eq_ok.mp h
      obtain rfl := pure_eq_ok.mp eq
      obtain ⟨-, rfl⟩ := Slot.merge_eq_ok.mp merged
      simp only [signals, List.map_append, List.sum_append, Option.toList_some, List.map_cons,
        List.map_nil, List.sum_singleton]
      omega
  | teardown =>
      cases h
      cases teardown
      · simp [signals]
        omega
      · simp [signals]
  | untrusted =>
      cases h
      cases untrusted
      · simp [signals]
        omega
      · simp [signals]

/-- Credentials are described first, so a verdict that comes to them adds no record. -/
theorem AuthDataGroup.charge_of_merge {g g' : AuthDataGroup} {d : AuthData}
    (h : g.merge d = .ok g') :
    (g'.data.toList.map fun x => u.body x.bodySize).sum ≤
      (g.data.toList.map fun x => u.body x.bodySize).sum + u.body d.bodySize := by
  obtain ⟨credentials, verdict⟩ := g
  cases d with
  | credentials c =>
      obtain ⟨-, h⟩ := andThen_eq_ok.mp h
      obtain ⟨_, merged, eq⟩ := bind_eq_ok.mp h
      obtain rfl := pure_eq_ok.mp eq
      obtain ⟨-, rfl⟩ := Slot.merge_eq_ok.mp merged
      simp [data]
  | verdict success =>
      obtain ⟨_, merged, eq⟩ := bind_eq_ok.mp h
      obtain rfl := pure_eq_ok.mp eq
      obtain ⟨-, rfl⟩ := Slot.merge_eq_ok.mp merged
      cases credentials <;> simp [data]

namespace MethodSet

variable {p : AuthMethod → Bool}

theorem length_filter_insert (s : MethodSet) (m : AuthMethod) :
    ((s.insert m).toList.filter p).length ≤ (s.toList.filter p).length + 1 := by
  have one (xs : List AuthMethod) :
      ((m :: xs).filter p).length ≤ (xs.filter p).length + 1 := by
    rw [List.filter_cons]
    split
    · exact Nat.le_refl _
    · exact Nat.le_succ _
  show ((m.insertAscending s.toList).filter p).length ≤ _
  induction s.toList with
  | nil => exact one []
  | cons x xs ih =>
      unfold AuthMethod.insertAscending
      split
      · exact one (x :: xs)
      · split
        · exact Nat.le_succ _
        · simp only [List.filter_cons]
          split
          · simpa using ih
          · exact ih

theorem length_filter_insertAll (s : MethodSet) (ms : List AuthMethod) :
    ((s.insertAll ms).toList.filter p).length ≤ (s.toList.filter p).length + ms.length := by
  induction ms generalizing s with
  | nil => exact Nat.le_refl _
  | cons m ms ih =>
      have first := s.length_filter_insert (p := p) m
      have others := ih (s.insert m)
      show ((insertAll (s.insert m) ms).toList.filter p).length ≤ _
      rw [List.length_cons]
      omega

end MethodSet

namespace MethodGroup

theorem advertisement_cases (g : MethodGroup) :
    (g.advertisement = none ∧ g.advertised.toList = []) ∨
      g.advertisement = some ⟨g.initialDataLength.getD 0, g.advertised.toList⟩ := by
  unfold advertisement
  split
  · rename_i silent
    rw [Bool.and_eq_true] at silent
    exact .inl ⟨rfl, List.isEmpty_iff.mp silent.1⟩
  · exact .inr rfl

theorem charge_of_merge {g g' : MethodGroup} {a : Advertisement} (h : g.merge a = .ok g') :
    (g'.advertisement.toList.map fun x => u.body x.bodySize).sum ≤
      (g.advertisement.toList.map fun x => u.body x.bodySize).sum + u.body a.bodySize := by
  obtain ⟨-, length, -, rfl⟩ := merge_eq_ok.mp h
  have more := g.advertised.length_filter_insertAll (p := (· ≠ .noAuth)) a.emitted
  have longer := u.mono (Nat.add_le_add_left more 2)
  rcases advertisement_cases ⟨g.advertised.insertAll a.emitted, length, g.selected⟩ with
    ⟨silent, -⟩ | said
  · rw [silent]
    exact Nat.zero_le _
  · rw [said]
    rcases g.advertisement_cases with ⟨silent, unlisted⟩ | before
    · rw [silent]
      rw [unlisted] at longer
      simpa [Advertisement.bodySize, Advertisement.emitted] using longer
    · rw [before]
      have joined := u.joined (g.advertised.toList.filter (· ≠ .noAuth)).length a.emitted.length
      simpa [Advertisement.bodySize, Advertisement.emitted] using longer.trans joined

end MethodGroup

/-! ## Sets -/

namespace OptionSet

variable {s t : OptionSet} {o : OptionRecord} {os : List OptionRecord}

/-- A sum over the records, group by group. -/
theorem sum_records (f : OptionRecord → Nat) (s : OptionSet) :
    (s.records.map f).sum =
      (s.stack.settings.map fun x => f (.stack x)).sum +
        (s.tokens.options.map fun x => f (.token x)).sum +
        (s.methods.advertisement.toList.map fun x => f (.advertisement x)).sum +
        (s.authData.data.toList.map fun x => f (.authData x)).sum +
        (s.session.signals.map fun x => f (.session x)).sum +
        (s.raw.map fun x => f (.raw x)).sum := by
  simp only [records, List.map_append, List.sum_append, List.map_map, Function.comp_def]

theorem recordsSize_eq_sum (s : OptionSet) :
    s.recordsSize = (s.records.map OptionRecord.size).sum := by
  rw [recordsSize, List.sum_eq_foldr, List.foldr_map]

/-- What the records of a set cost. -/
def charge (u : Tariff) (s : OptionSet) : Nat := (s.records.map (OptionRecord.charge u)).sum

theorem charge_count (s : OptionSet) : s.charge .count = s.records.length := by
  rw [charge, List.map_congr_left fun o _ => o.charge_count, List.map_const', List.sum_replicate,
    smul_eq_mul, Nat.mul_one]

theorem charge_padded (s : OptionSet) : s.charge .padded = s.recordsSize := by
  rw [recordsSize_eq_sum, charge, List.map_congr_left fun o _ => o.charge_padded]

theorem charge_empty (u : Tariff) (mode : Mode) : (empty mode).charge u = 0 := by
  rw [charge, records_empty]
  rfl

/-- An option that is applied pays for what the records cost more. -/
theorem charge_of_apply (h : s.apply o = .ok t) : t.charge u ≤ s.charge u + o.charge u := by
  obtain ⟨-, h⟩ := apply_eq_ok.mp h
  rw [charge, charge, sum_records, sum_records]
  cases o with
  | stack x =>
      obtain ⟨g, merged, rfl⟩ := h
      have paid := StackGroup.charge_of_merge (u := u) merged
      simp only [OptionRecord.charge, OptionRecord.bodySize]
      omega
  | session x =>
      obtain ⟨g, merged, rfl⟩ := h
      have paid := SessionGroup.charge_of_merge (u := u) merged
      simp only [OptionRecord.charge, OptionRecord.bodySize]
      omega
  | token x =>
      obtain ⟨g, merged, rfl⟩ := h
      have paid := TokenGroup.charge_of_merge (u := u) merged
      simp only [OptionRecord.charge, OptionRecord.bodySize]
      omega
  | advertisement a =>
      obtain ⟨g, merged, rfl⟩ := h
      have paid := MethodGroup.charge_of_merge (u := u) merged
      simp only [OptionRecord.charge, OptionRecord.bodySize]
      omega
  | authData d =>
      obtain ⟨g, merged, rfl⟩ := h
      have paid := AuthDataGroup.charge_of_merge (u := u) merged
      simp only [OptionRecord.charge, OptionRecord.bodySize]
      omega
  | raw frame =>
      obtain ⟨-, rfl⟩ := h
      simp only [OptionRecord.charge, List.map_append, List.sum_append, List.map_cons,
        List.map_nil, List.sum_singleton]
      omega

theorem charge_of_applyAll (h : s.applyAll os = .ok t) :
    t.charge u ≤ s.charge u + (os.map (OptionRecord.charge u)).sum := by
  induction os generalizing s with
  | nil =>
      cases h
      exact Nat.le_add_right _ _
  | cons o os ih =>
      obtain ⟨next, applied, rest⟩ := applyAll_cons.mp h
      have first := charge_of_apply (u := u) applied
      have others := ih rest
      rw [List.map_cons, List.sum_cons]
      omega

theorem charge_of_applyAll_empty {mode : Mode} (h : (empty mode).applyAll os = .ok t) :
    t.charge u ≤ (os.map (OptionRecord.charge u)).sum := by
  have paid := charge_of_applyAll (u := u) h
  rwa [charge_empty, Nat.zero_add] at paid

/-- There are no more records than options. -/
theorem length_records_of_applyAll_empty {mode : Mode} (h : (empty mode).applyAll os = .ok t) :
    t.records.length ≤ os.length := by
  have paid := charge_of_applyAll_empty (u := .count) h
  rwa [charge_count, List.map_congr_left fun o _ => o.charge_count, List.map_const',
    List.sum_replicate, smul_eq_mul, Nat.mul_one] at paid

end OptionSet

end Socks6
