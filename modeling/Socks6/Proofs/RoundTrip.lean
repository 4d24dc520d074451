/-
# Socks6.Proofs.RoundTrip — what was written is read again

For sets: the block of any set that can arise reads, under any policy, as the set
that is made of its first records, the raw ones left out if the policy says so.
For messages: what a message is encoded to reads as that message, and not a byte
further, if the policy keeps all its records; and what was read once and encoded
again reads as the same message under the same policy, whatever bytes it was
first read from.

The last of these needs that reading never gives more records than the policy
looks at: an option that is applied adds at most one record, so a set has no more
records than it has absorbed frames.
-/
import Socks6.Message
import Socks6.Proofs.Charge

namespace Socks6

open CursorM

/-- The options that are kept of a list of options under a policy. -/
def Policy.kept (policy : Policy) (os : List OptionRecord) : List OptionRecord :=
  (os.take policy.maxOptions).filter fun o => policy.retainUnrecognized || !o.isRaw

namespace OptionSet

variable {s u : OptionSet} {policy : Policy}

/-! ## Sets -/

/-- Every offered method is named by its byte. -/
def Canonical (s : OptionSet) : Prop := ∀ m ∈ s.methods.advertised.toList, m.Canonical

/-- A block reads as what is kept of the records of its set. -/
theorem ofBlock_of_lawful (h : s.Lawful) (canonical : s.Canonical)
    (fits : s.recordsSize ≤ Frame.maxBlock)
    (run : (empty s.mode).applyAll (policy.kept s.records) = .ok u) :
    (ofBlock s.mode policy s.block).1 = u := by
  have frames := PlacedFrame.frames_inOrder 0
    ((s.records.map OptionRecord.frame).take policy.maxOptions)
  rw [← frames_block fits, ← List.map_take] at frames
  rw [fst_ofBlock]
  refine absorbAll_of_applyAll frames (fun o listed => ?_) run
  exact h.readable canonical (List.mem_of_mem_take listed)

theorem exists_applyAll_kept (h : s.Lawful) (policy : Policy) :
    ∃ u, (empty s.mode).applyAll (policy.kept s.records) = .ok u :=
  h.exists_applyAll fun _ ho => List.mem_of_mem_take (List.mem_of_mem_filter ho)

theorem on_read_of_lawful (h : s.Lawful) (canonical : s.Canonical)
    (fits : s.recordsSize ≤ Frame.maxBlock)
    (run : (empty s.mode).applyAll (policy.kept s.records) = .ok u) :
    ∃ events, ∀ c c' : Cursor, c.Passes s.bytes c' →
      (OptionSet.read s.mode policy).on c = (.ok (u, events), c') := by
  refine ⟨(ofBlock s.mode policy s.block).2, fun c c' passed => ?_⟩
  rw [on_read_bytes fits passed, ← ofBlock_of_lawful h canonical fits run]

/-- A policy keeps all records if it looks at as many, and either passes raw ones
on or finds none. -/
theorem kept_records (room : s.records.length ≤ policy.maxOptions)
    (raw : policy.retainUnrecognized = true ∨ s.raw = []) :
    policy.kept s.records = s.records := by
  rw [Policy.kept, List.take_of_length_le room, List.filter_eq_self]
  intro o listed
  rcases raw with retained | none
  · rw [retained, Bool.true_or]
  · cases o with
    | raw frame =>
        have passed : frame ∈ s.raw := mem_records.mp listed
        rw [none] at passed
        cases passed
    | _ => exact Bool.or_true _

/-- The records that are not raw come first. -/
theorem exists_records_eq (s : OptionSet) :
    ∃ os : List OptionRecord, (∀ o ∈ os, o.isRaw = false) ∧ s.records = os ++ s.raw.map .raw := by
  refine ⟨_, fun o listed => ?_, rfl⟩
  simp only [List.mem_append, List.mem_map] at listed
  rcases listed with
    (((⟨_, -, rfl⟩ | ⟨_, -, rfl⟩) | ⟨_, -, rfl⟩) | ⟨_, -, rfl⟩) | ⟨_, -, rfl⟩ <;> rfl

/-- So it makes no difference whether raw records are left out before or after the
first records are counted. -/
theorem kept_records_eq_take (s : OptionSet) (policy : Policy) :
    policy.kept s.records =
      (s.records.filter fun o => policy.retainUnrecognized || !o.isRaw).take policy.maxOptions := by
  obtain ⟨os, interpreted, split⟩ := s.exists_records_eq
  rw [Policy.kept, split, List.take_append, List.filter_append, List.filter_append]
  rcases policy.retainUnrecognized
  · have front : ∀ o ∈ os, (false || !o.isRaw) = true := by
      intro o listed
      rw [interpreted o listed]
      rfl
    have back : ∀ o ∈ s.raw.map OptionRecord.raw, ¬(false || !o.isRaw) = true := by
      intro o listed
      obtain ⟨frame, -, rfl⟩ := List.mem_map.mp listed
      exact Bool.false_ne_true
    rw [List.filter_eq_self.mpr front, List.filter_eq_nil_iff.mpr back,
      List.filter_eq_self.mpr fun o listed => front o (List.mem_of_mem_take listed),
      List.filter_eq_nil_iff.mpr fun o listed => back o (List.mem_of_mem_take listed),
      List.append_nil, List.append_nil]
  · simp [List.take_append]

/-- What is written for a set that can arise reads, under any policy and with any
bytes behind it, as the set made of its records that the policy keeps. -/
theorem on_read_of_written {b : Bytes} {c c' : Cursor} (arises : s.Reachable)
    (canonical : s.Canonical) (written : s.write.on c = (.ok (), c'))
    (added : c'.passed.toList = c.passed.toList ++ b) (policy : Policy) (behind : Bytes) :
    ∃ u events,
      (OptionSet.read s.mode policy).on (.ofBytes (b ++ behind)) =
        (.ok (u, events), ⟨b.toArray, behind⟩) ∧
      b.length = s.size ∧
      (empty s.mode).applyAll (policy.kept s.records) = .ok u ∧
      (policy.retainUnrecognized = true → s.records.length ≤ policy.maxOptions →
        u = { s with methods := { s.methods with selected := .noAuth } }) := by
  have lawful := arises.lawful
  obtain ⟨fits, -, -, puts⟩ := (s.writes c c').mp written
  obtain rfl : b = s.bytes := List.append_cancel_left (added.symm.trans puts)
  obtain ⟨u, run⟩ := exists_applyAll_kept lawful policy
  obtain ⟨events, read⟩ := on_read_of_lawful lawful canonical fits run
  refine ⟨u, events, read _ _ Cursor.passes_ofBytes, s.length_bytes, run, fun retained room => ?_⟩
  rw [kept_records room (.inl retained), lawful.applyAll_records] at run
  cases run
  rfl

theorem on_read_of_written_tos_raw :
    ∃ s u events, s = (((empty .request).attempt (.tos .both 7)).2.attempt (.raw ⟨99, [1]⟩)).2 ∧
      (OptionSet.read s.mode .strict).on
        (.ofBytes ([0, 13, 0, 1, 0, 8, 3, 1, 1, 7, 0, 99, 0, 5, 1] ++ [6])) =
        (.ok (u, events), ⟨#[0, 13, 0, 1, 0, 8, 3, 1, 1, 7, 0, 99, 0, 5, 1], [6]⟩) ∧
      (empty s.mode).applyAll (Policy.strict.kept s.records) = .ok u := by
  have arises :
      (((empty .request).attempt (.tos .both 7)).2.attempt (.raw ⟨99, [1]⟩)).2.Reachable :=
    .attempt _ (.attempt _ (.empty .request))
  have written : (((empty .request).attempt (.tos .both 7)).2.attempt (.raw ⟨99, [1]⟩)).2.write.on
      (.ofBytes (List.replicate 15 0)) =
      (.ok (), ⟨#[0, 13, 0, 1, 0, 8, 3, 1, 1, 7, 0, 99, 0, 5, 1], []⟩) := by rfl
  obtain ⟨u, events, read, -, run, -⟩ :=
    on_read_of_written arises (by intro m offered; cases offered) written rfl .strict [6]
  exact ⟨_, u, events, rfl, read, run⟩

/-! ## Sets that were read -/

theorem extends_ofBlock (mode : Mode) (policy : Policy) (block : Bytes) :
    ∃ os : List OptionRecord, os.length ≤ policy.maxOptions ∧
      (∀ o ∈ os, (policy.retainUnrecognized || !o.isRaw) = true ∧
        ∃ f : Frame, f.interpret mode = .ok o) ∧
      (empty mode).Extends (os.flatMap OptionRecord.facts) (os.flatMap OptionRecord.frames)
        (ofBlock mode policy block).1 := by
  obtain ⟨os, few, each, run⟩ := exists_applyAll_of_ofBlock mode policy block
  exact ⟨os, few, each, (extends_of_applyAll run).2⟩

theorem canonical_ofBlock (mode : Mode) (policy : Policy) (block : Bytes) :
    (ofBlock mode policy block).1.Canonical := by
  obtain ⟨os, -, each, step⟩ := extends_ofBlock mode policy block
  intro m offered
  rcases (step.holds (.method m)).mp offered with before | stated
  · exact absurd before (not_holds_empty _ _)
  · obtain ⟨o, ho, hf⟩ := List.mem_flatMap.mp stated
    obtain ⟨-, f, held⟩ := each o ho
    cases o with
    | advertisement a =>
        have listed := List.mem_of_mem_filter (OptionRecord.method_mem_facts.mp hf)
        exact Frame.canonical_of_interpret held m listed
    | _ => simp [OptionRecord.facts] at hf

theorem kept_records_ofBlock (mode : Mode) (policy : Policy) (block : Bytes) :
    policy.kept (ofBlock mode policy block).1.records = (ofBlock mode policy block).1.records := by
  obtain ⟨os, few, each, run⟩ := exists_applyAll_of_ofBlock mode policy block
  generalize (ofBlock mode policy block).1 = s at run ⊢
  refine kept_records ((length_records_of_applyAll_empty run).trans few) ?_
  rcases retain : policy.retainUnrecognized
  · refine .inr ?_
    rw [(extends_of_applyAll run).2.raw, empty, List.nil_append, List.flatMap_eq_nil_iff]
    intro o ho
    have kept := (each o ho).1
    rw [retain] at kept
    cases o with
    | raw frame => cases kept
    | _ => rfl
  · exact .inl rfl

end OptionSet

namespace Message

variable {m : Message} {mode : Mode} {policy : Policy} {b : Bytes}

/-! ## Messages -/

def bytes (m : Message) : Bytes := m.head.bytes ++ m.options.bytes

theorem length_bytes (m : Message) : m.bytes.length = m.size := by
  rw [bytes, List.length_append, Head.length_bytes, OptionSet.length_bytes, size]

theorem writes (m : Message) :
    Writes m.write (m.head.Proper ∧ m.options.recordsSize ≤ Frame.maxBlock) m.bytes :=
  m.head.writes.seq m.options.writes

theorem encode_eq_ok :
    m.encode = .ok b ↔
      (m.head.Proper ∧ m.options.recordsSize ≤ Frame.maxBlock) ∧ b = m.bytes := by
  have filling : m.encode = m.write.filling m.bytes.length := by
    rw [encode, fill, CursorM.filling, length_bytes]
    rcases written : m.write.on (.ofBytes (List.replicate m.size 0)) with ⟨e | _, c⟩
    · rfl
    · have moved := ((m.writes _ c).mp written).2.offset_ofBytes
      rw [length_bytes] at moved
      simp only [moved, if_true]
  rw [filling, m.writes.filling_eq_ok]

/-- The method in the head is put back where it was taken from. -/
theorem assemble_head (lawful : m.options.Lawful) (kind : m.options.mode = m.mode) :
    assemble m.head { m.options with methods := { m.options.methods with selected := .noAuth } } =
      .ok m := by
  cases m with
  | request code address port options =>
      rcases lawful.selected with none | reply
      · simp only [assemble, head, Message.options, ← none]
      · cases kind.symm.trans reply
  | authReply code options =>
      refine bind_eq_ok.mpr ⟨options, OptionSet.select_eq_ok.mpr ⟨kind, .inl rfl, rfl⟩, rfl⟩
  | operationReply code initialDataOffset address port options =>
      rcases lawful.selected with none | reply
      · simp only [assemble, head, Message.options, ← none]
      · cases kind.symm.trans reply

theorem head_of_assemble {h : Head} {s : OptionSet} (assembled : assemble h s = .ok m) :
    m.head = h := by
  cases h with
  | request code port address =>
      cases assembled
      rfl
  | authReply code method =>
      obtain ⟨t, selected, eq⟩ := bind_eq_ok.mp assembled
      obtain ⟨-, -, rfl⟩ := OptionSet.select_eq_ok.mp selected
      cases eq
      rfl
  | operationReply code initialDataOffset port address =>
      cases assembled
      rfl

theorem on_read_eq_ok {c c' : Cursor} :
    (Message.read mode policy).on c = (.ok m, c') ↔ ∃ c₁ s events,
      (Head.read mode).on c = (.ok m.head, c₁) ∧
      (OptionSet.read mode policy).on c₁ = (.ok (s, events), c') ∧ assemble m.head s = .ok m := by
  simp only [Message.read, readLogged, on_bind_eq_ok, on_pure_eq_ok, on_ofExcept_eq_ok]
  constructor
  · intro taken
    obtain ⟨_, _, ⟨h, c₁, head, ⟨s, events⟩, c₂, options, _, _, ⟨assembled, rfl⟩, _, _, here,
      rfl, rfl⟩, rfl, rfl⟩ := taken
    cases here
    obtain rfl := head_of_assemble assembled
    exact ⟨c₁, s, events, head, options, assembled⟩
  · intro taken
    obtain ⟨c₁, s, events, head, options, assembled⟩ := taken
    exact ⟨_, c', ⟨_, c₁, head, _, c', options, m, c', ⟨assembled, rfl⟩, _, c', rfl, rfl, rfl⟩, rfl,
      rfl⟩

/-- A message from whose bytes nothing is lost under the policy: its options are
lawful and belong to its kind of envelope, its methods are named by their bytes,
and all its records are kept. -/
structure Stable (policy : Policy) (m : Message) : Prop where
  lawful : m.options.Lawful
  kind : m.options.mode = m.mode
  canonical : m.options.Canonical
  head : m.head.Canonical
  kept : policy.kept m.options.records = m.options.records

/-- What a stable message is encoded to reads as that message, wherever it stands. -/
theorem Stable.on_read {c c' : Cursor} (h : m.Stable policy) (encoded : m.encode = .ok b)
    (passed : c.Passes b c') : (Message.read m.mode policy).on c = (.ok m, c') := by
  obtain ⟨⟨proper, fits⟩, rfl⟩ := encode_eq_ok.mp encoded
  obtain ⟨c₁, first, second⟩ := Cursor.passes_append.mp passed
  have run := h.lawful.applyAll_records
  rw [← h.kept] at run
  obtain ⟨events, read⟩ := OptionSet.on_read_of_lawful h.lawful h.canonical fits run
  have before := Head.on_read_eq_ok.mpr ⟨rfl, proper, h.head, first⟩
  refine on_read_eq_ok.mpr ⟨c₁, _, events, before, ?_, assemble_head h.lawful h.kind⟩
  rw [← h.kind]
  exact read _ _ second

/-! ## Messages that were built -/

theorem options_setOptions (m : Message) (s : OptionSet) : (m.setOptions s).options = s := by
  cases m <;> rfl

theorem mode_setOptions (m : Message) (s : OptionSet) : (m.setOptions s).mode = m.mode := by
  cases m <;> rfl

/-- A message that is made without options and then given some, all at once or by
changes, refused changes included. -/
inductive Built : Message → Prop
  | newRequest (code : RequestCode) (address : Address) (port : UInt16) :
    Built (newRequest code address port)
  | newAuthReply (code : AuthReplyCode) : Built (newAuthReply code)
  | newOperationReply (code : OperationReplyCode) (initialDataOffset : UInt16) (address : Address)
    (port : UInt16) : Built (newOperationReply code initialDataOffset address port)
  | withOptions {m m' : Message} {options : OptionSet} : Built m → options.Reachable →
    m.withOptions options = .ok m' → Built m'
  | attempt {m : Message} (c : Change) : Built m → Built (m.setOptions (m.options.attempt c).2)

theorem Built.options (h : m.Built) : m.options.Reachable ∧ m.options.mode = m.mode := by
  induction h with
  | newRequest code address port => exact ⟨.empty .request, rfl⟩
  | newAuthReply code => exact ⟨.empty .authReply, rfl⟩
  | newOperationReply code initialDataOffset address port => exact ⟨.empty .operationReply, rfl⟩
  | @withOptions m m' options _ arises made _ =>
      unfold Message.withOptions at made
      split at made
      · rename_i kind
        cases made
        rw [options_setOptions, mode_setOptions]
        exact ⟨arises, kind⟩
      · cases made
  | attempt c _ ih =>
      rw [options_setOptions, mode_setOptions, OptionSet.mode_attempt]
      exact ⟨.attempt c ih.1, ih.2⟩

/-- What a message that was built is encoded to has its size and reads as that
message, and what stands behind is left, if the policy keeps all its records. -/
theorem on_read_of_encode (built : m.Built) (canonical : m.options.Canonical)
    (selected : m.options.methods.selected.Canonical) (retained : policy.retainUnrecognized = true)
    (room : m.options.records.length ≤ policy.maxOptions) (encoded : m.encode = .ok b)
    (behind : Bytes) :
    b.length = m.size ∧
      (Message.read m.mode policy).on (.ofBytes (b ++ behind)) = (.ok m, ⟨b.toArray, behind⟩) := by
  obtain ⟨arises, kind⟩ := built.options
  have head : m.head.Canonical := by
    cases m with
    | authReply code options => exact selected
    | _ => trivial
  have stable : m.Stable policy :=
    ⟨arises.lawful, kind, canonical, head, OptionSet.kept_records room (.inl retained)⟩
  obtain ⟨-, rfl⟩ := encode_eq_ok.mp encoded
  exact ⟨m.length_bytes, stable.on_read encoded Cursor.passes_ofBytes⟩

theorem on_read_of_encode_tos :
    let m := newRequest .connect (.ipv4 ⟨[127, 0, 0, 1], rfl⟩) 80
    let built := m.setOptions (m.options.attempt (.tos .both 7)).2
    20 = built.size ∧ (Message.read built.mode .passthrough).on
      (.ofBytes ([6, 1, 1, 0, 80, 1, 127, 0, 0, 1, 0, 8, 0, 1, 0, 8, 3, 1, 1, 7] ++ [9])) =
        (.ok built, ⟨#[6, 1, 1, 0, 80, 1, 127, 0, 0, 1, 0, 8, 0, 1, 0, 8, 3, 1, 1, 7], [9]⟩) := by
  intro m built
  have canonical : built.options.Canonical := by
    intro method offered
    cases offered
  exact on_read_of_encode (.attempt _ (.newRequest _ _ _)) canonical rfl rfl (by decide) rfl [9]

/-! ## Messages that were read -/

/-- A message that was read is stable under the policy it was read under. -/
theorem stable_of_read {c c' : Cursor} (read : (Message.read mode policy).on c = (.ok m, c')) :
    m.mode = mode ∧ m.Stable policy := by
  obtain ⟨c₁, s, events, head, options, assembled⟩ := on_read_eq_ok.mp read
  obtain ⟨kind, -, canonical, -⟩ := Head.on_read_eq_ok.mp head
  obtain ⟨block, -, -, eq⟩ := OptionSet.on_read_eq_ok.mp options
  obtain ⟨os, -, -, step⟩ := OptionSet.extends_ofBlock mode policy block
  have lawful := OptionSet.Lawful.ofBlock mode policy block
  have methods := OptionSet.canonical_ofBlock mode policy block
  have kept := OptionSet.kept_records_ofBlock mode policy block
  have same := step.mode
  rw [eq] at lawful methods kept same
  refine ⟨kind, ?_⟩
  cases m with
  | request code address port options =>
      cases assembled
      exact ⟨lawful, same.trans kind.symm, methods, canonical, kept⟩
  | authReply code options =>
      obtain ⟨t, selected, made⟩ := bind_eq_ok.mp assembled
      cases made
      have lawful' := lawful.select selected
      revert canonical
      generalize options.methods.selected = method at selected
      obtain ⟨-, -, rfl⟩ := OptionSet.select_eq_ok.mp selected
      intro canonical
      exact ⟨lawful', same.trans kind.symm, methods, canonical, kept⟩
  | operationReply code initialDataOffset address port options =>
      cases assembled
      exact ⟨lawful, same.trans kind.symm, methods, canonical, kept⟩

/-- What was read and is encoded again reads as the same message under the same
policy, to its last byte, and its head is the one that was first read. -/
theorem on_read_of_reencode {b' : Bytes} {c : Cursor}
    (read : (Message.read mode policy).on (.ofBytes b) = (.ok m, c)) (encoded : m.encode = .ok b') :
    (Message.read mode policy).on (.ofBytes b') = (.ok m, ⟨b'.toArray, []⟩) ∧
      (Head.read mode).on (.ofBytes b) =
        (.ok m.head, ⟨(b.take m.head.size).toArray, b.drop m.head.size⟩) ∧
      b'.take m.head.size = b.take m.head.size := by
  obtain ⟨rfl, stable⟩ := stable_of_read read
  obtain ⟨c₁, s, events, head, -, -⟩ := on_read_eq_ok.mp read
  obtain ⟨-, -, -, passed⟩ := Head.on_read_eq_ok.mp head
  obtain ⟨first, eq⟩ := Cursor.eq_of_passes_ofBytes passed
  rw [Head.length_bytes] at first eq
  have again : (Cursor.ofBytes (b' ++ [])).Passes b' ⟨b'.toArray, []⟩ := Cursor.passes_ofBytes
  rw [List.append_nil] at again
  refine ⟨stable.on_read encoded again, ?_, ?_⟩
  · rw [head, eq, first]
  · obtain ⟨-, rfl⟩ := encode_eq_ok.mp encoded
    rw [first, bytes, ← Head.length_bytes, List.take_left]

theorem on_read_of_reencode_damaged :
    (Message.read .request .strict).on
        (.ofBytes [6, 1, 1, 0, 80, 1, 127, 0, 0, 1, 0, 8, 0, 1, 0, 8, 3, 1, 1, 7]) =
      (.ok ((newRequest .connect (.ipv4 ⟨[127, 0, 0, 1], rfl⟩) 80).setOptions
        ((OptionSet.empty .request).attempt (.tos .both 7)).2),
        ⟨#[6, 1, 1, 0, 80, 1, 127, 0, 0, 1, 0, 8, 0, 1, 0, 8, 3, 1, 1, 7], []⟩) := by
  -- two records that one of both legs replaces, and a tail that is no record
  have read : (Message.read .request .strict).on (.ofBytes [6, 1, 1, 0, 80, 1, 127, 0, 0, 1, 0, 20,
      0, 1, 0, 8, 1, 1, 1, 7, 0, 1, 0, 8, 2, 1, 1, 7, 9, 9, 5, 5]) =
      (.ok ((newRequest .connect (.ipv4 ⟨[127, 0, 0, 1], rfl⟩) 80).setOptions
        ((OptionSet.empty .request).attempt (.tos .both 7)).2),
        ⟨#[6, 1, 1, 0, 80, 1, 127, 0, 0, 1, 0, 20, 0, 1, 0, 8, 1, 1, 1, 7, 0, 1, 0, 8, 2, 1, 1, 7,
          9, 9, 5, 5], []⟩) := by rfl
  have encoded : ((newRequest .connect (.ipv4 ⟨[127, 0, 0, 1], rfl⟩) 80).setOptions
      ((OptionSet.empty .request).attempt (.tos .both 7)).2).encode =
      .ok [6, 1, 1, 0, 80, 1, 127, 0, 0, 1, 0, 8, 0, 1, 0, 8, 3, 1, 1, 7] := by rfl
  exact (on_read_of_reencode read encoded).1

end Message

end Socks6
