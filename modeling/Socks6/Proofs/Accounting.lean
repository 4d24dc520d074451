/-
# Socks6.Proofs.Accounting — no record is lost silently

A record of a block is looked at or not.  If it is, then either its option is
applied and nothing is said of it, or one event of low severity names the place
where it starts.  If records are left that nobody looks at, or bytes that are
none, the last event is a warning that says so.  `OptionSet.Accounted` is the
balance of a block, and every block that is read has one
(`OptionSet.read_accounts`).

Absorbing goes through the records once and puts each of them on one of two
heaps (`PlacedFrame.Divided`).  That is all that is used of it: the counts, the
order of the events and the match of records and events are read off the two
heaps, because records start at different places.
-/
import Socks6.Proofs.Abandoning
import Socks6.Proofs.Dropping

namespace Socks6

/-! ## Places of events -/

/-- The place in the block that the event names. -/
def Event.offset? : Event → Option Nat
  | .malformed _ offset _ | .unrecognized _ offset | .refused _ offset _ | .corrupt offset _ =>
    some offset
  | .limitReached .. | .decoded .. => none

theorem Event.Drops.offset?_eq {e : Event} {p : PlacedFrame} (h : e.Drops p) :
    e.offset? = some p.offset := by
  cases e with
  | malformed => exact congrArg some h.2
  | unrecognized => exact congrArg some h.2
  | refused => exact congrArg some h
  | corrupt => cases h
  | limitReached => cases h
  | decoded => cases h

theorem Event.Drops.severity_eq {e : Event} {p : PlacedFrame} (h : e.Drops p) :
    e.severity = .debug := by
  cases e with
  | corrupt => cases h
  | limitReached => cases h
  | decoded => cases h
  | _ => rfl

namespace PlacedFrame

/-- Every frame starts before the place where the last one ends. -/
theorem pairwise_offsets (offset : Nat) (fs : List Frame) :
    ((inOrder offset fs).map (·.offset) ++ [offset + (fs.flatMap Frame.bytes).length]).Pairwise
      (· < ·) := by
  induction fs generalizing offset with
  | nil => exact List.pairwise_singleton _ _
  | cons f fs ih =>
      have header : 4 ≤ f.size := Nat.le_add_right _ _
      have others := ih (offset + f.size)
      rw [List.flatMap_cons, List.length_append, Frame.length_bytes, ← Nat.add_assoc]
      refine List.pairwise_cons.mpr ⟨fun n later => ?_, others⟩
      show offset < n
      rcases List.mem_append.mp later with placed | last
      · obtain ⟨q, hq, rfl⟩ := List.mem_map.mp placed
        have behind := le_of_mem_inOrder hq
        omega
      · obtain rfl := List.mem_singleton.mp last
        omega

theorem length_inOrder (offset : Nat) (fs : List Frame) :
    (inOrder offset fs).length = fs.length := by
  rw [← List.length_map (fun p : PlacedFrame => p.frame), frames_inOrder]

/-! ## Two heaps -/

/-- Frames in order, divided into those that are accepted, and events of dropping
the others. -/
inductive Divided : List PlacedFrame → List PlacedFrame → List Event → Prop
  | nil : Divided [] [] []
  | accept {p : PlacedFrame} {ps accepted : List PlacedFrame} {events : List Event} :
    Divided ps accepted events → Divided (p :: ps) (p :: accepted) events
  | drop {p : PlacedFrame} {e : Event} {ps accepted : List PlacedFrame} {events : List Event} :
    e.Drops p → Divided ps accepted events → Divided (p :: ps) accepted (e :: events)

namespace Divided

variable {ps accepted : List PlacedFrame} {events : List Event}

theorem sublist (h : Divided ps accepted events) : accepted.Sublist ps := by
  induction h with
  | nil => exact .slnil
  | accept _ ih => exact ih.cons_cons _
  | drop _ _ ih => exact ih.cons _

theorem length (h : Divided ps accepted events) : accepted.length + events.length = ps.length := by
  induction h with
  | nil => rfl
  | accept _ ih =>
      simp only [List.length_cons]
      omega
  | drop _ _ ih =>
      simp only [List.length_cons]
      omega

theorem severity (h : Divided ps accepted events) : ∀ e ∈ events, e.severity = .debug := by
  induction h with
  | nil => nofun
  | accept _ ih => exact ih
  | drop drops _ ih => exact List.forall_mem_cons.mpr ⟨drops.severity_eq, ih⟩

theorem offsets (h : Divided ps accepted events) :
    (events.filterMap Event.offset?).Sublist (ps.map (·.offset)) := by
  induction h with
  | nil => exact .slnil
  | accept _ ih => exact ih.cons _
  | drop drops _ ih =>
      rw [List.filterMap_cons_some drops.offset?_eq]
      exact ih.cons_cons _

theorem offset?_ne (h : Divided ps accepted events) {n : Nat} (elsewhere : ∀ p ∈ ps, p.offset ≠ n) :
    ∀ e ∈ events, e.offset? ≠ some n := by
  intro e reported names
  have place : n ∈ events.filterMap Event.offset? := List.mem_filterMap.mpr ⟨e, reported, names⟩
  obtain ⟨p, hp, here⟩ := List.mem_map.mp (h.offsets.subset place)
  exact elsewhere p hp here

/-- Of a frame that is accepted there is no event. -/
theorem silent (h : Divided ps accepted events)
    (apart : ps.Pairwise fun p q => p.offset < q.offset) :
    ∀ p ∈ accepted, ∀ e ∈ events, e.offset? ≠ some p.offset := by
  induction h with
  | nil => nofun
  | accept rest ih =>
      obtain ⟨behind, apart⟩ := List.pairwise_cons.mp apart
      refine List.forall_mem_cons.mpr ⟨?_, ih apart⟩
      exact rest.offset?_ne fun q hq => (behind q hq).ne'
  | drop drops rest ih =>
      obtain ⟨behind, apart⟩ := List.pairwise_cons.mp apart
      intro p hp
      refine List.forall_mem_cons.mpr ⟨?_, ih apart p hp⟩
      rw [drops.offset?_eq]
      intro same
      exact (behind p (rest.sublist.subset hp)).ne (Option.some.inj same)

/-- Of a frame that is not accepted there is one event, and it says so. -/
theorem reported (h : Divided ps accepted events)
    (apart : ps.Pairwise fun p q => p.offset < q.offset) :
    ∀ p ∈ ps, p ∉ accepted →
      ∃ e, events.filter (fun e => e.offset? = some p.offset) = [e] ∧ e.Drops p := by
  induction h with
  | nil => nofun
  | accept rest ih =>
      obtain ⟨-, apart⟩ := List.pairwise_cons.mp apart
      intro p hp out
      rw [List.mem_cons, not_or] at out
      exact ih apart p ((List.mem_cons.mp hp).resolve_left out.1) out.2
  | drop drops rest ih =>
      obtain ⟨behind, apart⟩ := List.pairwise_cons.mp apart
      intro p hp out
      rcases List.mem_cons.mp hp with rfl | later
      · refine ⟨_, ?_, drops⟩
        rw [List.filter_cons_of_pos (by simp [drops.offset?_eq])]
        refine congrArg (List.cons _) (List.filter_eq_nil_iff.mpr fun e he => ?_)
        simpa using rest.offset?_ne (fun q hq => (behind q hq).ne') e he
      · rw [List.filter_cons_of_neg (by simpa [drops.offset?_eq] using (behind p later).ne)]
        exact ih apart p later out

end Divided

end PlacedFrame

/-! ## What is examined of a block -/

/-- The records that are looked at: those that the bytes begin with, up to a limit,
and no fewer. -/
structure Examined (limit : Nat) (block : Bytes) (fs : List Frame) (tail : Bytes) : Prop where
  cut : block = fs.flatMap Frame.bytes ++ tail
  framed : ∀ f ∈ fs, f.size ≤ Frame.maxBlock
  few : fs.length ≤ limit
  stop : fs.length = limit ∨ Frame.Torn tail

/-- Why no further record is looked at behind `examined` of them, with `tail` left
at `place`.  Where the limit is reached, it does not matter whether another record
begins there. -/
inductive Stops (limit examined place : Nat) : Bytes → BlockEnd → Prop
  | complete : Stops limit examined place [] .complete
  | limitReached {tail : Bytes} (more : tail ≠ []) (full : examined = limit) :
    Stops limit examined place tail (.limitReached tail.length)
  | corrupt {tail : Bytes} (more : tail ≠ []) (room : examined < limit) (torn : Frame.Torn tail)
    (fault : Error) : Stops limit examined place tail (.corrupt place fault)

theorem Stops.succ {limit examined place : Nat} {tail : Bytes} {ending : BlockEnd}
    (h : Stops limit examined place tail ending) :
    Stops (limit + 1) (examined + 1) place tail ending := by
  cases h with
  | complete => exact .complete
  | limitReached more full => exact .limitReached more (congrArg Nat.succ full)
  | corrupt more room torn fault => exact .corrupt more (Nat.succ_lt_succ room) torn fault

theorem Frame.torn_of_on_read {c c' : Cursor} {fault : Error}
    (h : Frame.read.on c = (.error fault, c')) : Frame.Torn c.rest := by
  refine Frame.torn_iff.mpr ?_
  rintro ⟨f, behind, fits, begun⟩
  have passed : c.Passes f.bytes ⟨c.passed ++ f.bytes, behind⟩ := ⟨begun, by simp⟩
  cases h.symm.trans (Frame.on_read_eq_ok.mpr ⟨fits, passed⟩)

/-- Cutting frames off a block examines it, and says why it stops. -/
theorem Cursor.exists_examined (limit : Nat) (c : Cursor) :
    ∃ (fs : List Frame) (tail : Bytes), Examined limit c.rest fs tail ∧
      (c.frames limit).1 = PlacedFrame.inOrder c.offset fs ∧
      Stops limit fs.length (c.offset + (fs.flatMap Frame.bytes).length) tail
        (c.frames limit).2 := by
  induction limit generalizing c with
  | zero =>
      refine ⟨[], c.rest, ⟨rfl, nofun, Nat.le_refl _, .inl rfl⟩, rfl, ?_⟩
      rcases none : c.atEnd
      · rw [frames, none]
        exact .limitReached (List.isEmpty_eq_false_iff.mp none) rfl
      · rw [frames, none, List.isEmpty_iff.mp none]
        exact .complete
  | succ n ih =>
      rcases none : c.atEnd
      · rcases read : Frame.read.on c with ⟨fault | f, next⟩
        · have torn := Frame.torn_of_on_read read
          rw [frames, none, read]
          exact ⟨[], c.rest, ⟨rfl, nofun, Nat.zero_le _, .inr torn⟩, rfl,
            .corrupt (List.isEmpty_eq_false_iff.mp none) n.succ_pos torn fault⟩
        · obtain ⟨fits, passed⟩ := Frame.on_read_eq_ok.mp read
          obtain ⟨fs, tail, ⟨cut, framed, few, stop⟩, placed, stops⟩ := ih next
          rw [frames_cons fits passed, placed]
          rw [passed.offset_eq, Frame.length_bytes] at stops ⊢
          refine ⟨f :: fs, tail, ⟨?_, List.forall_mem_cons.mpr ⟨fits, framed⟩,
            Nat.succ_le_succ few, stop.imp_left (congrArg Nat.succ)⟩, rfl, ?_⟩
          · rw [passed.1, cut, List.flatMap_cons, List.append_assoc]
          · rw [List.flatMap_cons, List.length_append, Frame.length_bytes, ← Nat.add_assoc]
            exact stops.succ
      · rw [frames, none, List.isEmpty_iff.mp none]
        exact ⟨[], [], ⟨rfl, nofun, Nat.zero_le _, .inr (.noHeader (by decide))⟩, rfl, .complete⟩

theorem Cursor.pairwise_frames (c : Cursor) (limit : Nat) :
    (c.frames limit).1.Pairwise fun p q => p.offset < q.offset := by
  obtain ⟨fs, -, -, placed, -⟩ := c.exists_examined limit
  rw [placed]
  exact PlacedFrame.pairwise_inOrder _ _

theorem Examined.frames_eq {limit : Nat} {c : Cursor} {fs : List Frame} {tail : Bytes}
    (h : Examined limit c.rest fs tail) :
    (c.frames limit).1 = PlacedFrame.inOrder c.offset fs := by
  obtain ⟨c', behind, placed⟩ := Cursor.exists_frames_append h.framed h.cut h.few
  rw [placed, Cursor.frames_of_stopped (behind ▸ h.stop), List.append_nil]

/-- The block and the limit determine what is examined. -/
theorem Examined.unique {limit : Nat} {block tail tail' : Bytes} {fs fs' : List Frame}
    (h : Examined limit block fs tail) (h' : Examined limit block fs' tail') :
    fs = fs' ∧ tail = tail' := by
  have placed := (Examined.frames_eq (c := .ofBytes block) h).symm.trans
    (Examined.frames_eq (c := .ofBytes block) h')
  have same : fs = fs' := by
    rw [← PlacedFrame.frames_inOrder (Cursor.ofBytes block).offset fs, placed,
      PlacedFrame.frames_inOrder]
  subst same
  exact ⟨rfl, List.append_cancel_left (h.cut.symm.trans h'.cut)⟩

namespace BlockEnd

theorem length_events_le (limit : Nat) (ending : BlockEnd) : (ending.events limit).length ≤ 1 := by
  cases ending with
  | complete => exact Nat.zero_le 1
  | _ => exact Nat.le_refl 1

theorem severity_events (limit : Nat) (ending : BlockEnd) :
    ∀ e ∈ ending.events limit, e.severity = .warn := by
  cases ending with
  | complete => nofun
  | _ => exact List.forall_mem_singleton.mpr rfl

theorem not_drops {limit : Nat} {ending : BlockEnd} {e : Event} (h : e ∈ ending.events limit)
    (p : PlacedFrame) : ¬e.Drops p := by
  intro drops
  cases (ending.severity_events limit e h).symm.trans drops.severity_eq

end BlockEnd

namespace Stops

variable {limit examined place : Nat} {tail : Bytes} {ending : BlockEnd}

theorem events_cases (h : Stops limit examined place tail ending) :
    tail = [] ∧ ending.events limit = [] ∨
      tail ≠ [] ∧ examined = limit ∧ ending.events limit = [.limitReached limit tail.length] ∨
      tail ≠ [] ∧ examined < limit ∧ Frame.Torn tail ∧
        ∃ fault, ending.events limit = [.corrupt place fault] := by
  cases h with
  | complete => exact .inl ⟨rfl, rfl⟩
  | limitReached more full => exact .inr (.inl ⟨more, full, rfl⟩)
  | corrupt more room torn fault => exact .inr (.inr ⟨more, room, torn, fault, rfl⟩)

theorem events_eq_nil_iff (h : Stops limit examined place tail ending) :
    ending.events limit = [] ↔ tail = [] := by
  cases h with
  | complete => exact iff_of_true rfl rfl
  | limitReached more full => exact iff_of_false (List.cons_ne_nil _ _) more
  | corrupt more room torn fault => exact iff_of_false (List.cons_ne_nil _ _) more

theorem offsets (h : Stops limit examined place tail ending) :
    ((ending.events limit).filterMap Event.offset?).Sublist [place] := by
  cases h with
  | complete => exact List.nil_sublist _
  | limitReached more full => exact List.nil_sublist _
  | corrupt more room torn fault => exact List.Sublist.refl _

theorem offset?_ne (h : Stops limit examined place tail ending) {n : Nat} (before : n < place) :
    ∀ e ∈ ending.events limit, e.offset? ≠ some n := by
  intro e reported names
  have mem := h.offsets.subset (List.mem_filterMap.mpr ⟨e, reported, names⟩)
  exact before.ne (List.mem_singleton.mp mem)

end Stops

namespace OptionSet

open PlacedFrame

variable {s t : OptionSet} {retain : Bool} {p : PlacedFrame}

/-! ## Accepted records -/

/-- Of some frames, those whose options are applied when all are absorbed. -/
def absorbed (retain : Bool) (s : OptionSet) : List PlacedFrame → List PlacedFrame
  | [] => []
  | p :: ps =>
    match s.absorb retain p with
    | .ok t => p :: t.absorbed retain ps
    | .error _ => s.absorbed retain ps

theorem absorbed_of_ok (h : s.absorb retain p = .ok t) (ps : List PlacedFrame) :
    s.absorbed retain (p :: ps) = p :: t.absorbed retain ps := by
  rw [absorbed, h]

theorem absorbed_of_error {e : Event} (h : s.absorb retain p = .error e) (ps : List PlacedFrame) :
    s.absorbed retain (p :: ps) = s.absorbed retain ps := by
  rw [absorbed, h]

theorem divided_absorbAll (retain : Bool) (s : OptionSet) (ps : List PlacedFrame) :
    Divided ps (s.absorbed retain ps) (s.absorbAll retain ps).2 := by
  induction ps generalizing s with
  | nil => exact .nil
  | cons p ps ih =>
      rcases taken : s.absorb retain p with e | t
      · rw [absorbed_of_error taken, absorbAll_of_error taken]
        exact .drop (drops_of_absorb taken) (ih s)
      · rw [absorbed_of_ok taken, absorbAll_of_ok taken]
        exact .accept (ih t)

/-- The options of the accepted frames, applied one after the other, make the set. -/
theorem exists_applyAll_absorbed (retain : Bool) (s : OptionSet) (ps : List PlacedFrame) :
    ∃ os : List OptionRecord,
      List.Forall₂ (fun p o => p.frame.interpret s.mode = .ok o ∧ (retain || !o.isRaw) = true)
        (s.absorbed retain ps) os ∧
      s.applyAll os = .ok (s.absorbAll retain ps).1 := by
  induction ps generalizing s with
  | nil => exact ⟨[], .nil, rfl⟩
  | cons p ps ih =>
      rcases taken : s.absorb retain p with e | t
      · rw [absorbed_of_error taken, absorbAll_of_error taken]
        exact ih s
      · obtain ⟨o, held, kept, applied⟩ := absorb_eq_ok.mp taken
        obtain ⟨os, each, run⟩ := ih t
        rw [(extends_of_apply applied).2.mode] at each
        rw [absorbed_of_ok taken, absorbAll_of_ok taken]
        exact ⟨o :: os, .cons ⟨held, kept⟩ each, applyAll_cons.mpr ⟨t, applied, run⟩⟩

/-! ## The balance of a block -/

/-- What becomes of a block that begins with the records `fs` and goes on with
`tail`: it says `s`, `accepted` are the records that say it, and `events` are the
rest of the story. -/
structure Accounted (mode : Mode) (policy : Policy) (fs : List Frame) (tail : Bytes)
    (accepted : List PlacedFrame) (s : OptionSet) (events : List Event) : Prop where
  among : accepted.Sublist (inOrder 0 fs)
  /-- The accepted records hold options, and applying these makes the set. -/
  applied : ∃ os : List OptionRecord,
    List.Forall₂ (fun p o => p.frame.interpret mode = .ok o ∧
      (policy.retainUnrecognized || !o.isRaw) = true) accepted os ∧
    (empty mode).applyAll os = .ok s
  /-- Of an accepted record there is no event. -/
  silent : ∀ p ∈ accepted, ∀ e ∈ events, e.offset? ≠ some p.offset
  /-- Of any other record that is examined there is exactly one. -/
  reported : ∀ p ∈ inOrder 0 fs, p ∉ accepted →
    ∃ e, events.filter (fun e => e.offset? = some p.offset) = [e] ∧
      e.severity = .debug ∧ e.Drops p
  counted : accepted.length + (events.filter (·.severity = .debug)).length = fs.length
  increasing : (events.filterMap Event.offset?).Pairwise (· < ·)
  /-- There is a warning exactly if the records do not cover the block. -/
  warned : (∃ e ∈ events, e.severity = .warn) ↔ tail ≠ []
  /-- Nothing stands behind a warning. -/
  last : ∀ before e after, events = before ++ e :: after → e.severity = .warn → after = []
  /-- The warning says how many bytes are left where the limit is reached, or at which
  place no record begins. -/
  ending : ∃ dropped warnings, events = dropped ++ warnings ∧
    (∀ e ∈ dropped, e.severity = .debug) ∧
    (tail = [] ∧ warnings = [] ∨
      tail ≠ [] ∧ fs.length = policy.maxOptions ∧
        warnings = [.limitReached policy.maxOptions tail.length] ∨
      tail ≠ [] ∧ fs.length < policy.maxOptions ∧ Frame.Torn tail ∧
        ∃ fault, warnings = [.corrupt (fs.flatMap Frame.bytes).length fault])

theorem accounted_of_divided {mode : Mode} {policy : Policy} {fs : List Frame} {tail : Bytes}
    {accepted : List PlacedFrame} {dropped : List Event} {ending : BlockEnd}
    (heaps : Divided (inOrder 0 fs) accepted dropped)
    (stops : Stops policy.maxOptions fs.length (fs.flatMap Frame.bytes).length tail ending)
    (applied : ∃ os : List OptionRecord,
      List.Forall₂ (fun p o => p.frame.interpret mode = .ok o ∧
        (policy.retainUnrecognized || !o.isRaw) = true) accepted os ∧
      (empty mode).applyAll os = .ok s) :
    Accounted mode policy fs tail accepted s (dropped ++ ending.events policy.maxOptions) := by
  have apart := pairwise_inOrder 0 fs
  have places := pairwise_offsets 0 fs
  rw [Nat.zero_add] at places
  have warns := ending.severity_events policy.maxOptions
  have low : ∀ e ∈ dropped, e.severity ≠ .warn := by
    intro e he
    rw [heaps.severity e he]
    decide
  have outside : ∀ p ∈ inOrder 0 fs, ∀ e ∈ ending.events policy.maxOptions,
      e.offset? ≠ some p.offset := by
    intro p hp
    obtain ⟨-, -, before⟩ := List.pairwise_append.mp places
    exact stops.offset?_ne (before _ (List.mem_map_of_mem hp) _ (List.mem_singleton.mpr rfl))
  refine {
    among := heaps.sublist
    applied := applied
    ending := ⟨dropped, _, rfl, heaps.severity, stops.events_cases⟩
    silent := ?_, reported := ?_, counted := ?_, increasing := ?_, warned := ?_, last := ?_ }
  · intro p hp
    exact List.forall_mem_append.mpr
      ⟨heaps.silent apart p hp, outside p (heaps.sublist.subset hp)⟩
  · intro p hp out
    obtain ⟨e, one, drops⟩ := heaps.reported apart p hp out
    refine ⟨e, ?_, drops.severity_eq, drops⟩
    rw [List.filter_append, one, List.filter_eq_nil_iff.mpr (by simpa using outside p hp)]
    rfl
  · have all : dropped.filter (·.severity = .debug) = dropped :=
      List.filter_eq_self.mpr (by simpa using heaps.severity)
    have none : (ending.events policy.maxOptions).filter (·.severity = .debug) = [] :=
      List.filter_eq_nil_iff.mpr fun e he => by simp [warns e he]
    rw [List.filter_append, all, none, List.append_nil, heaps.length, length_inOrder]
  · rw [List.filterMap_append]
    exact places.sublist (heaps.offsets.append stops.offsets)
  · refine Iff.trans ?_ (not_congr stops.events_eq_nil_iff)
    constructor
    · rintro ⟨e, he, warn⟩ none
      rw [none, List.append_nil] at he
      exact low e he warn
    · intro some
      obtain ⟨e, he⟩ := List.exists_mem_of_ne_nil _ some
      exact ⟨e, List.mem_append_right _ he, warns e he⟩
  · intro before e after split warn
    have one := ending.length_events_le policy.maxOptions
    -- a warning is none of the events in front, so the cut is not in front of it
    rcases List.append_eq_append_iff.mp split with ⟨front, rfl, behind⟩ | ⟨front, cut, behind⟩
    · rw [behind] at one
      simp only [List.length_append, List.length_cons] at one
      exact List.eq_nil_of_length_eq_zero (by omega)
    · cases front with
      | nil =>
          rw [List.nil_append] at behind
          rw [← behind, List.length_cons] at one
          exact List.eq_nil_of_length_eq_zero (by omega)
      | cons x front =>
          obtain ⟨rfl, -⟩ := List.cons.inj behind
          exact absurd warn (low e (by simp [cut]))

theorem snd_ofBlock (mode : Mode) (policy : Policy) (block : Bytes) :
    let cut := (Cursor.ofBytes block).frames policy.maxOptions
    (ofBlock mode policy block).2 =
      ((empty mode).absorbAll policy.retainUnrecognized cut.1).2 ++
        cut.2.events policy.maxOptions :=
  rfl

/-- Whatever block is read, wherever it stands, every record that is examined is
accepted or reported, and a warning goes with what is not examined. -/
theorem read_accounts (mode : Mode) (policy : Policy) {block : Bytes}
    (fits : block.length ≤ Frame.maxBlock)
    {c c' : Cursor} (there : c.Passes (counted block) c') :
    ∃ fs tail accepted s events,
      Examined policy.maxOptions block fs tail ∧
      (OptionSet.read mode policy).on c = (.ok (s, events), c') ∧
      Accounted mode policy fs tail accepted s events := by
  obtain ⟨fs, tail, examined, placed, stops⟩ :=
    Cursor.exists_examined policy.maxOptions (.ofBytes block)
  rw [Cursor.offset_ofBytes, Nat.zero_add] at stops
  rw [Cursor.offset_ofBytes] at placed
  have run := exists_applyAll_absorbed policy.retainUnrecognized (empty mode) (inOrder 0 fs)
  have heaps := divided_absorbAll policy.retainUnrecognized (empty mode) (inOrder 0 fs)
  have read : (OptionSet.read mode policy).on c =
      (.ok ((ofBlock mode policy block).1, (ofBlock mode policy block).2), c') :=
    on_read_eq_ok.mpr ⟨block, fits, there, rfl⟩
  rw [fst_ofBlock, snd_ofBlock, placed] at read
  exact ⟨fs, tail, _, _, _, examined, read, accounted_of_divided heaps stops run⟩

/-- A setting, a setting cut short, a kind that is not known, a setting that
contradicts the first, a session, and a header that declares more than is left. -/
theorem read_accounts_damaged :
    let block : Bytes := [0, 1, 0, 8, 3, 1, 1, 7] ++ [0, 1, 0, 5, 3] ++ [0, 99, 0, 4] ++
      [0, 1, 0, 8, 2, 1, 1, 8] ++ [0, 4, 0, 5, 1] ++ [0, 4, 0, 8, 1]
    let c : Cursor := .ofBytes (counted block ++ [9])
    let c' : Cursor := ⟨(counted block).toArray, [9]⟩
    block.length ≤ Frame.maxBlock ∧ c.Passes (counted block) c' ∧
    ∃ fs tail accepted s events,
      Examined Policy.strict.maxOptions block fs tail ∧
      (OptionSet.read .request .strict).on c = (.ok (s, events), c') ∧
      Accounted .request .strict fs tail accepted s events ∧
      events.filterMap Event.offset? = [8, 13, 17, 30] := by
  intro block c c'
  have fits : block.length ≤ Frame.maxBlock := by decide
  have there : c.Passes (counted block) c' := Cursor.passes_ofBytes
  obtain ⟨fs, tail, accepted, s, events, examined, read, accounted⟩ :=
    read_accounts .request .strict fits there
  refine ⟨fits, there, fs, tail, accepted, s, events, examined, read, accounted, ?_⟩
  have log : (ofBlock .request .strict block).2.filterMap Event.offset? = [8, 13, 17, 30] := by
    decide
  have again := on_read_eq_ok.mpr ⟨block, fits, there, Eq.refl (ofBlock .request .strict block)⟩
  have same := Except.ok.inj (congrArg Prod.fst (again.symm.trans read))
  rwa [same] at log

end OptionSet

end Socks6
