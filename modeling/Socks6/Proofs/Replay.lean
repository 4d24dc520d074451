/-
# Socks6.Proofs.Replay — reading a block replays its options

There are two ways to put options into a set: to apply them one after the other,
and to read them from a block in which their records stand.  They agree, refusals
included (`OptionSet.read_eq_run`).

They do not refuse at the same place.  A backlog of zero or a window out of range
never leaves the reader of its body, an option that contradicts another is refused
by the set, and no-authentication among advertised methods is not even written.
So the comparison is made frame by frame (`OptionSet.absorb_frame`): what a set
makes of the frame of an option is what it makes of the option.  That much needs
the option to be one that the frame can show (`OptionRecord.Sendable`), but asks
nothing of its values and nothing of the set.
-/
import Socks6.Proofs.Lawful

namespace Socks6

open CursorM

/-! ## Bodies that are read and then refused -/

theorem StackSetting.on_readBody_of_invalid {s : StackSetting} {e : Error} {c c' : Cursor}
    (invalid : s.property.validate = .error e) (passed : c.Passes s.pieces.flatten c') :
    readBody.on c = (.error e, c') := by
  rw [pieces_flatten] at passed
  simp only [Cursor.passes_append] at passed
  obtain ⟨c₁, leg, c₂, level, c₃, code, value⟩ := passed
  rw [readBody, on_bind_of_ok (on_readCoded_eq_ok.mpr leg),
    on_bind_of_ok (on_readU8_eq_ok.mpr level), Coded.ofCode?_byte]
  dsimp only
  rw [on_bind_of_ok (on_readU8_eq_ok.mpr code),
    on_bind_of_ok (StackProperty.on_readValue_eq_ok.mpr ⟨rfl, rfl, value⟩)]
  dsimp only
  rw [invalid, on_bind]
  rfl

theorem TokenOption.on_readBody_of_invalid {o : TokenOption} {e : Error} {c c' : Cursor}
    (invalid : o.validate = .error e) (passed : c.Passes o.pieces.flatten c') :
    readBody.on c = (.error e, c') := by
  have kind : o.pieces.flatten = [Coded.byte o.type] ++ o.pieces.tail.flatten := rfl
  rw [kind] at passed
  obtain ⟨c₁, type, payload⟩ := Cursor.passes_append.mp passed
  rw [readBody, on_bind_of_ok (on_readU8_eq_ok.mpr type), Coded.ofCode?_byte]
  dsimp only
  rw [on_bind_of_ok (on_readPayload_eq_ok.mpr ⟨rfl, payload⟩), invalid, on_bind]
  rfl

theorem Frame.interpret_of_refused {mode : Mode} (kind : OptionKind) {bs : Bytes} {e : Error}
    (h : ∀ c c' : Cursor, c.Passes bs c' →
      (OptionRecord.readBody mode kind).on c = (.error e, c')) (behind : Bytes) :
    Frame.interpret mode ⟨UInt16.ofNat (Coded.code kind), bs ++ behind⟩ = .error e := by
  rw [interpret_kind, onBytes, h _ _ Cursor.passes_ofBytes]
  rfl

theorem StackSetting.interpret_frame_of_invalid {mode : Mode} {s : StackSetting} {e : Error}
    (invalid : s.property.validate = .error e) :
    (OptionRecord.stack s).frame.interpret mode = .error e := by
  refine Frame.interpret_of_refused .stack (fun c c' passed => ?_) _
  exact on_bind_of_error (on_readBody_of_invalid invalid passed)

theorem TokenOption.interpret_frame_of_invalid {mode : Mode} {o : TokenOption} {e : Error}
    (invalid : o.validate = .error e) :
    (OptionRecord.token o).frame.interpret mode = .error e := by
  refine Frame.interpret_of_refused .token (fun c c' passed => ?_) _
  exact on_bind_of_error (on_readBody_of_invalid invalid passed)

/-! ## Advertisements as they are written -/

namespace Advertisement

variable {a : Advertisement}

/-- The advertisement without no-authentication, which is not written. -/
def written (a : Advertisement) : Advertisement := ⟨a.initialDataLength, a.emitted⟩

theorem emitted_written (a : Advertisement) : a.written.emitted = a.emitted :=
  List.filter_filter.trans (by simp [emitted])

theorem validate_written (a : Advertisement) : a.written.validate = a.validate := by
  have same : a.emitted.contains .noAcceptable = a.methods.contains .noAcceptable := by
    simp [emitted]
  rw [validate, validate, written, same]

/-- Leaving no-authentication out makes no difference on the wire. -/
theorem frame_written (a : Advertisement) :
    (OptionRecord.advertisement a.written).frame = (OptionRecord.advertisement a).frame := by
  have pieces : a.written.pieces = a.pieces := by
    rw [Advertisement.pieces, a.emitted_written]
    rfl
  have size : a.written.bodySize = a.bodySize := by
    rw [bodySize, a.emitted_written]
    rfl
  simp only [OptionRecord.frame, OptionRecord.pieces, OptionRecord.bodySize, pieces, size]
  rfl

end Advertisement

theorem MethodGroup.merge_written (g : MethodGroup) (a : Advertisement) :
    g.merge a.written = g.merge a := by
  rw [merge, merge, a.validate_written, a.emitted_written]
  rfl

/-! ## One option -/

/-- The frame of the option can show it in this kind of envelope: it may travel
there, its methods are named by bytes, and if it is raw, it is opaque there. -/
structure OptionRecord.Sendable (mode : Mode) (o : OptionRecord) : Prop where
  allowed : o.allowedIn mode = true
  canonical : ∀ a, o = .advertisement a → ∀ m ∈ a.methods, m.Canonical
  uninterpreted : ∀ f, o = .raw f → ∃ g, f.interpret mode = .ok (.raw g)

namespace OptionSet

variable {s t : OptionSet} {o : OptionRecord} {os : List OptionRecord} {p : PlacedFrame}
  {ps : List PlacedFrame}

theorem absorb_of_interpret (held : p.frame.interpret s.mode = .ok o) :
    s.absorb true p = .ok t ↔ s.apply o = .ok t := by
  rw [absorb_eq_ok, held]
  simp

/-- If a frame is refused and so is an option, neither makes a set. -/
theorem absorb_of_malformed {e : Error} (held : p.frame.interpret s.mode = .error e)
    (invalid : ¬ o.InRange) : s.absorb true p = .ok t ↔ s.apply o = .ok t := by
  refine iff_of_false (fun absorbed => ?_) fun applied => ?_
  · obtain ⟨_, read, -⟩ := absorb_eq_ok.mp absorbed
    rw [held] at read
    cases read
  · exact invalid (extends_of_apply applied).1.inRange

theorem apply_written (s : OptionSet) (a : Advertisement) :
    s.apply (.advertisement a.written) = s.apply (.advertisement a) := by
  unfold apply
  simp only [MethodGroup.merge_written]
  rfl

/-- A set absorbs the frame of an option exactly if it takes the option, and then
it becomes the same set. -/
theorem absorb_frame (frame : p.frame = o.frame) (sendable : o.Sendable s.mode) :
    s.absorb true p = .ok t ↔ s.apply o = .ok t := by
  obtain ⟨allowed, canonical, uninterpreted⟩ := sendable
  cases o with
  | stack x =>
      rcases valid : x.property.validate with e | ⟨⟩
      · refine absorb_of_malformed (frame ▸ StackSetting.interpret_frame_of_invalid valid) ?_
        intro inRange
        cases valid.symm.trans (inRange _ rfl)
      · exact absorb_of_interpret (frame ▸ OptionRecord.interpret_frame valid)
  | token x =>
      rcases valid : x.validate with e | ⟨⟩
      · refine absorb_of_malformed (frame ▸ TokenOption.interpret_frame_of_invalid valid) ?_
        intro inRange
        cases valid.symm.trans (inRange _ rfl)
      · exact absorb_of_interpret (frame ▸ OptionRecord.interpret_frame valid)
  | session x => exact absorb_of_interpret (frame ▸ OptionRecord.interpret_frame trivial)
  | authData d =>
      have shape : d.envelope = s.mode := by
        cases d <;> exact (of_decide_eq_true allowed).symm
      exact absorb_of_interpret (frame ▸ OptionRecord.interpret_frame shape)
  | advertisement a =>
      have readable : (OptionRecord.advertisement a.written).Readable s.mode :=
        ⟨fun m hm => canonical a rfl m (List.mem_of_mem_filter hm), by
          simp [Advertisement.written, Advertisement.emitted]⟩
      rw [← apply_written]
      exact absorb_of_interpret
        (frame ▸ a.frame_written ▸ OptionRecord.interpret_frame readable)
  | raw f =>
      obtain ⟨g, read⟩ := uninterpreted f rfl
      obtain rfl := Frame.interpret_eq_raw read
      exact absorb_of_interpret (frame ▸ read)

/-! ## Lists of options -/

/-- Absorbing the frames of options is applying the options, those that are
refused left out. -/
theorem absorbAll_eq_run (frames : ps.map (·.frame) = os.map OptionRecord.frame)
    (sendable : ∀ o ∈ os, o.Sendable s.mode) :
    (s.absorbAll true ps).1 = s.run (os.map .apply) := by
  induction os generalizing s ps with
  | nil =>
      obtain rfl := List.map_eq_nil_iff.mp frames
      rfl
  | cons o os ih =>
      obtain ⟨p, ps, rfl, same, others⟩ := List.map_eq_cons_iff.mp frames
      obtain ⟨first, all⟩ := List.forall_mem_cons.mp sendable
      have step : (s.absorb true p).toOption.getD s = (s.attempt (.apply o)).2 := by
        rw [snd_attempt, toOption_congr fun _ => absorb_frame same first]
        rfl
      rw [fst_absorbAll_cons, List.map_cons, run_cons, step]
      refine ih others ?_
      rwa [mode_attempt]

/-! ## Reading them -/

theorem flatten_of_packed {records : List Bytes}
    (packed : List.Forall₂ (fun o b => o.write.filling o.size = .ok b) os records) :
    records.flatten = (os.map OptionRecord.frame).flatMap Frame.bytes := by
  induction packed with
  | nil => rfl
  | @cons o b os records first _ ih =>
      have length : o.frame.bytes.length = o.size := by
        rw [Frame.length_bytes, OptionRecord.size_frame]
      rw [← length] at first
      obtain ⟨-, rfl⟩ := o.writes.filling_eq_ok.mp first
      rw [List.flatten_cons, List.map_cons, List.flatMap_cons, ih]

/-- A block of packed options is read as the set to which they are applied one by
one, each that is refused leaving the set as it is. -/
theorem read_eq_run {mode : Mode} {policy : Policy} {os : List OptionRecord}
    {records : List Bytes} (sendable : ∀ o ∈ os, o.Sendable mode)
    (packed : List.Forall₂ (fun o b => o.write.filling o.size = .ok b) os records)
    (fits : records.flatten.length ≤ Frame.maxBlock)
    (retain : policy.retainUnrecognized = true) (room : os.length ≤ policy.maxOptions)
    (behind : Bytes) :
    let wire := Bytes.ofUInt16 (UInt16.ofNat records.flatten.length) ++ records.flatten
    ∃ events, (OptionSet.read mode policy).on (.ofBytes (wire ++ behind)) =
      (.ok ((empty mode).run (os.map .apply), events), ⟨wire.toArray, behind⟩) := by
  have block := flatten_of_packed packed
  rw [block] at fits
  have read := on_read_wire mode fits (by rwa [List.length_map]) behind
  rw [retain] at read
  rw [block, ← absorbAll_eq_run (PlacedFrame.frames_inOrder 0 _) sendable]
  exact ⟨_, read⟩

/-- Options of which every second one is refused: a backlog of zero on the wire,
another type of service on one leg and another length of initial data by the set;
and no-authentication among the methods, which is not written. -/
theorem read_eq_run_refused :
    let os : List OptionRecord := [.stack ⟨.both, .tos 7⟩, .stack ⟨.both, .backlog 0⟩,
      .advertisement ⟨5, [.noAuth, .gssapi]⟩, .stack ⟨.clientProxy, .tos 8⟩, .raw ⟨99, [1]⟩,
      .advertisement ⟨6, [.usernamePassword]⟩]
    let records := os.map (·.frame.bytes)
    let wire := Bytes.ofUInt16 (UInt16.ofNat records.flatten.length) ++ records.flatten
    (∀ o ∈ os, o.Sendable .request) ∧
    List.Forall₂ (fun o b => o.write.filling o.size = .ok b) os records ∧
    records.flatten.length ≤ Frame.maxBlock ∧ os.length ≤ Policy.passthrough.maxOptions ∧
    ∃ events, (OptionSet.read .request .passthrough).on (.ofBytes (wire ++ [9])) =
      (.ok ((empty .request).run (os.map .apply), events), ⟨wire.toArray, [9]⟩) := by
  intro os records wire
  have sendable : ∀ o ∈ os, o.Sendable .request := by
    have each : os.map (OptionRecord.allowedIn .request) = os.map fun _ => true := rfl
    have raw : Frame.interpret .request ⟨99, [1]⟩ = .ok (.raw ⟨99, [1]⟩) := rfl
    refine fun o ho => ⟨List.map_inj_left.mp each o ho, ?_, ?_⟩
    · rintro a rfl
      simp [os] at ho
      rcases ho with rfl | rfl <;> decide
    · rintro f rfl
      simp [os] at ho
      exact ho ▸ ⟨_, raw⟩
  have packed : List.Forall₂ (fun o b => o.write.filling o.size = .ok b) os records :=
    .cons rfl (.cons rfl (.cons rfl (.cons rfl (.cons rfl (.cons rfl .nil)))))
  have fits : records.flatten.length ≤ Frame.maxBlock := by decide
  have room : os.length ≤ Policy.passthrough.maxOptions := by decide
  exact ⟨sendable, packed, fits, room, read_eq_run sendable packed fits rfl room [9]⟩

end OptionSet

end Socks6
