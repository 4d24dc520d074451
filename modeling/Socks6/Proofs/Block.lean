/-
# Socks6.Proofs.Block — option blocks, written and read

A set is written as the length of its records and the frames of its records, one
behind the other (`OptionSet.bytes`).  Reading takes a length and as many bytes,
cuts frames off them, and offers each to the set read so far.  What comes out is
a run of options (`exists_applyAll_of_absorbAll`): those that were neither broken
nor left out nor refused.  So whatever holds of runs holds of every set that is
read, from any bytes.
-/
import Socks6.OptionSet.Block
import Socks6.Proofs.Apply

namespace Socks6

open CursorM

/-! ## Writing a set -/

namespace OptionSet

variable {s t : OptionSet} {o : OptionRecord} {os : List OptionRecord}

/-- The frames of the records, one behind the other. -/
def block (s : OptionSet) : Bytes := s.records.flatMap (·.frame.bytes)

theorem flatMap_frame (s : OptionSet) :
    (s.records.map OptionRecord.frame).flatMap Frame.bytes = s.block :=
  List.flatMap_map ..

def bytes (s : OptionSet) : Bytes := Bytes.ofUInt16 (UInt16.ofNat s.recordsSize) ++ s.block

theorem length_block (s : OptionSet) : s.block.length = s.recordsSize := by
  rw [block, recordsSize]
  induction s.records with
  | nil => rfl
  | cons o os ih =>
      rw [List.flatMap_cons, List.length_append, Frame.length_bytes, OptionRecord.size_frame, ih,
        List.foldr_cons]

theorem length_bytes (s : OptionSet) : s.bytes.length = s.size := by
  rw [bytes, List.length_append, Bytes.length_ofUInt16, length_block, size]

theorem size_le_recordsSize (h : o ∈ s.records) : o.size ≤ s.recordsSize := by
  have part := Frame.size_le_of_mem (List.mem_map_of_mem (f := OptionRecord.frame) h)
  rwa [OptionRecord.size_frame, List.flatMap_map, ← block, length_block] at part

theorem size_le_maxBlock (fits : s.recordsSize ≤ Frame.maxBlock) (h : o ∈ s.records) :
    o.size ≤ Frame.maxBlock :=
  (size_le_recordsSize h).trans fits

theorem size_frame_le (fits : s.recordsSize ≤ Frame.maxBlock) :
    ∀ f ∈ s.records.map OptionRecord.frame, f.size ≤ Frame.maxBlock := by
  intro f hf
  obtain ⟨o, listed, rfl⟩ := List.mem_map.mp hf
  rw [OptionRecord.size_frame]
  exact size_le_maxBlock fits listed

theorem writes_records (os : List OptionRecord) :
    Writes (os.forM OptionRecord.write) (∀ o ∈ os, o.size ≤ Frame.maxBlock)
      (os.flatMap (·.frame.bytes)) := by
  induction os with
  | nil => exact Writes.nothing.congr (by simp)
  | cons o os ih => exact (o.writes.seq ih).congr (by rw [List.forall_mem_cons])

/-- Records that do not fit behind their length are refused before anything is written. -/
theorem on_write_of_long (long : Frame.maxBlock < s.recordsSize) (c : Cursor) :
    s.write.on c = (.error (.invalidField "options length"
      (.blockTooLong s.recordsSize Frame.maxBlock)), c) := by
  rw [OptionSet.write, if_pos long]
  exact on_bind_of_error (on_throw _ c)

/-- A set is written if its records fit into the length field; then as many bytes
are counted as were announced. -/
theorem writes (s : OptionSet) : Writes s.write (s.recordsSize ≤ Frame.maxBlock) s.bytes := by
  intro c c'
  by_cases long : Frame.maxBlock < s.recordsSize
  · rw [on_write_of_long long]
    simp [Nat.not_le_of_lt long]
  have fits := Nat.le_of_not_lt long
  have each : ∀ o ∈ s.records, o.size ≤ Frame.maxBlock := fun _ => size_le_maxBlock fits
  have total (c₁ c₂ : Cursor) (puts : c₁.Puts s.block c₂) :
      c₂.offset - c₁.offset = s.recordsSize := by
    rw [puts.offset_eq, Nat.add_sub_cancel_left, length_block]
  rw [OptionSet.write, if_neg long]
  simp only [fits, true_and]
  constructor
  · intro h
    obtain ⟨position, c₁, reserved, h⟩ := on_bind_eq_ok.mp h
    obtain ⟨rfl, room⟩ := on_reserve_eq_ok.mp reserved
    obtain ⟨start, _, here, h⟩ := on_bind_eq_ok.mp h
    cases here
    obtain ⟨_, c₂, written, h⟩ := on_bind_eq_ok.mp h
    have puts := ((writes_records s.records _ _).mp written).2
    obtain ⟨stop, _, there, h⟩ := on_bind_eq_ok.mp h
    cases there
    rw [total _ _ puts, if_pos rfl] at h
    exact (on_patch_eq_ok _ (Cursor.puts_append.mpr ⟨c₁, room, puts⟩)).mp h
  · intro puts
    have room : ([0, 0] ++ s.block).length ≤ c.rest.length := by
      have same := puts.1
      rw [bytes, List.length_append, Bytes.length_ofUInt16] at same
      rwa [List.length_append]
    obtain ⟨c₂, both⟩ := Cursor.exists_puts room
    obtain ⟨c₁, reserved, written⟩ := Cursor.puts_append.mp both
    refine on_bind_eq_ok.mpr ⟨_, c₁, on_reserve_eq_ok.mpr ⟨rfl, reserved⟩, ?_⟩
    refine on_bind_eq_ok.mpr ⟨_, c₁, rfl, ?_⟩
    refine on_bind_eq_ok.mpr ⟨(), c₂, (writes_records _ _ _).mpr ⟨each, written⟩, ?_⟩
    refine on_bind_eq_ok.mpr ⟨_, c₂, rfl, ?_⟩
    rw [total _ _ written, if_pos rfl]
    exact (on_patch_eq_ok _ both).mpr puts

theorem encode_eq_ok {b : Bytes} :
    s.encode = .ok b ↔ s.recordsSize ≤ Frame.maxBlock ∧ b = s.bytes := by
  rw [encode, ← s.length_bytes]
  exact s.writes.filling_eq_ok

end OptionSet

/-! ## Cutting a block -/

/-- Frames one behind the other, the first of them at `offset`. -/
def PlacedFrame.inOrder (offset : Nat) : List Frame → List PlacedFrame
  | [] => []
  | f :: fs => ⟨offset, f⟩ :: inOrder (offset + f.size) fs

theorem PlacedFrame.frames_inOrder (offset : Nat) (fs : List Frame) :
    (inOrder offset fs).map (·.frame) = fs := by
  induction fs generalizing offset with
  | nil => rfl
  | cons f fs ih => rw [inOrder, List.map_cons, ih]

theorem PlacedFrame.frame_mem_of_mem_inOrder {offset : Nat} {fs : List Frame} {p : PlacedFrame}
    (h : p ∈ inOrder offset fs) : p.frame ∈ fs :=
  frames_inOrder offset fs ▸ List.mem_map_of_mem h

namespace Cursor

variable {c c' : Cursor}

theorem frames_cons {f : Frame} (fits : f.size ≤ Frame.maxBlock) (passed : c.Passes f.bytes c')
    (n : Nat) : c.frames (n + 1) = (⟨c.offset, f⟩ :: (c'.frames n).1, (c'.frames n).2) := by
  have more : c.atEnd = false := by
    rw [atEnd, passed.1, List.isEmpty_eq_false_iff, ← List.length_pos_iff_ne_nil,
      List.length_append, Frame.length_bytes, Frame.size, Frame.headerSize]
    omega
  rw [frames, more, Frame.on_read_eq_ok.mpr ⟨fits, passed⟩]
  rfl

theorem length_frames_le (n : Nat) (c : Cursor) : (c.frames n).1.length ≤ n := by
  induction n generalizing c with
  | zero => simp [frames]
  | succ n ih =>
      rw [frames]
      split
      · simp
      · split
        · simp
        · rename_i next _
          simpa using ih next

/-- Frames written one behind the other are cut off again in order, up to the limit,
and if that is not reached, nothing is left. -/
theorem frames_eq_inOrder {fs : List Frame} (fits : ∀ f ∈ fs, f.size ≤ Frame.maxBlock)
    (h : c.rest = fs.flatMap Frame.bytes) (n : Nat) :
    (c.frames n).1 = PlacedFrame.inOrder c.offset (fs.take n) ∧
      (fs.length ≤ n → (c.frames n).2 = .complete) := by
  induction fs generalizing c n with
  | nil =>
      have none : c.atEnd = true := by
        rw [atEnd, h]
        rfl
      cases n <;> simp [frames, none, PlacedFrame.inOrder]
  | cons f fs ih =>
      obtain ⟨first, others⟩ := List.forall_mem_cons.mp fits
      cases n with
      | zero => simp [frames, PlacedFrame.inOrder]
      | succ n =>
          have passed : c.Passes f.bytes ⟨c.passed ++ f.bytes, fs.flatMap Frame.bytes⟩ :=
            ⟨h, by simp⟩
          obtain ⟨placed, ended⟩ :=
            ih (c := ⟨c.passed ++ f.bytes, fs.flatMap Frame.bytes⟩) others rfl n
          rw [passed.offset_eq, Frame.length_bytes] at placed
          rw [frames_cons first passed, placed]
          exact ⟨rfl, fun room => ended (Nat.le_of_succ_le_succ room)⟩

theorem frames_flatMap {fs : List Frame} (fits : ∀ f ∈ fs, f.size ≤ Frame.maxBlock) {n : Nat}
    (room : fs.length ≤ n) :
    (ofBytes (fs.flatMap Frame.bytes)).frames n = (PlacedFrame.inOrder 0 fs, .complete) := by
  obtain ⟨placed, ended⟩ := frames_eq_inOrder (c := .ofBytes (fs.flatMap Frame.bytes)) fits rfl n
  rw [List.take_of_length_le room, offset_ofBytes] at placed
  exact Prod.ext placed (ended room)

end Cursor

/-! ## Absorbing frames -/

namespace OptionSet

variable {s t : OptionSet} {o : OptionRecord} {retain : Bool} {p : PlacedFrame}
  {ps : List PlacedFrame}

theorem frames_block (fits : s.recordsSize ≤ Frame.maxBlock) (limit : Nat) :
    ((Cursor.ofBytes s.block).frames limit).1 =
      PlacedFrame.inOrder 0 ((s.records.map OptionRecord.frame).take limit) := by
  have spelled : (Cursor.ofBytes s.block).rest =
      (s.records.map OptionRecord.frame).flatMap Frame.bytes := s.flatMap_frame.symm
  exact (Cursor.frames_eq_inOrder (size_frame_le fits) spelled limit).1

/-- A frame is absorbed if it is interpreted, not left out, and its option is applied. -/
theorem absorb_eq_ok :
    s.absorb retain p = .ok t ↔
      ∃ o, p.frame.interpret s.mode = .ok o ∧ (retain || !o.isRaw) = true ∧ s.apply o = .ok t := by
  unfold absorb
  rcases p.frame.interpret s.mode with e | o
  · simp
  · have out : (o.isRaw && !retain) = !(retain || !o.isRaw) := by
      rw [Bool.not_or, Bool.not_not, Bool.and_comm]
    simp only [Except.ok.injEq, exists_eq_left', out]
    rcases retain || !o.isRaw
    · simp
    · rcases s.apply o <;> simp

theorem absorbAll_of_ok (h : s.absorb retain p = .ok t) (ps : List PlacedFrame) :
    s.absorbAll retain (p :: ps) = t.absorbAll retain ps := by
  rw [absorbAll, h]

theorem absorbAll_of_error {e : Event} (h : s.absorb retain p = .error e) (ps : List PlacedFrame) :
    s.absorbAll retain (p :: ps) =
      ((s.absorbAll retain ps).1, e :: (s.absorbAll retain ps).2) := by
  rw [absorbAll, h]

theorem fst_absorbAll_cons (retain : Bool) (s : OptionSet) (p : PlacedFrame)
    (ps : List PlacedFrame) : (s.absorbAll retain (p :: ps)).1 =
      (((s.absorb retain p).toOption.getD s).absorbAll retain ps).1 := by
  rcases absorbed : s.absorb retain p with e | t
  · rw [absorbAll_of_error absorbed]
    rfl
  · rw [absorbAll_of_ok absorbed]
    rfl

theorem mode_absorb (retain : Bool) (s : OptionSet) (p : PlacedFrame) :
    ((s.absorb retain p).toOption.getD s).mode = s.mode := by
  rcases absorbed : s.absorb retain p with e | t
  · rfl
  · obtain ⟨o, -, -, applied⟩ := absorb_eq_ok.mp absorbed
    exact (extends_of_apply applied).2.mode

/-- What is absorbed from frames is a run of options that these frames hold. -/
theorem exists_applyAll_of_absorbAll (retain : Bool) (s : OptionSet) (ps : List PlacedFrame) :
    ∃ os : List OptionRecord, os.length ≤ ps.length ∧
      (∀ o ∈ os, (retain || !o.isRaw) = true ∧
        ∃ f : Frame, f.interpret s.mode = .ok o) ∧
      s.applyAll os = .ok (s.absorbAll retain ps).1 := by
  induction ps generalizing s with
  | nil => exact ⟨[], Nat.le_refl _, nofun, rfl⟩
  | cons p ps ih =>
      rcases absorbed : s.absorb retain p with e | t
      · obtain ⟨os, few, each, run⟩ := ih s
        rw [absorbAll_of_error absorbed]
        exact ⟨os, Nat.le_succ_of_le few, each, run⟩
      · obtain ⟨o, held, kept, applied⟩ := absorb_eq_ok.mp absorbed
        obtain ⟨os, few, each, run⟩ := ih t
        rw [(extends_of_apply applied).2.mode] at each
        rw [absorbAll_of_ok absorbed]
        refine ⟨o :: os, Nat.succ_le_succ few, ?_, applyAll_cons.mpr ⟨t, applied, run⟩⟩
        exact List.forall_mem_cons.mpr ⟨⟨kept, p.frame, held⟩, each⟩

theorem mode_absorbAll (retain : Bool) (s : OptionSet) (ps : List PlacedFrame) :
    (s.absorbAll retain ps).1.mode = s.mode := by
  obtain ⟨os, -, -, run⟩ := exists_applyAll_of_absorbAll retain s ps
  exact (extends_of_applyAll run).2.mode

/-- A run of options is absorbed from the frames that these options are written
as, where those that are left out may stand among them. -/
theorem absorbAll_of_applyAll {os : List OptionRecord}
    (frames : ps.map (·.frame) = os.map OptionRecord.frame)
    (readable : ∀ o ∈ os, o.Readable s.mode)
    (run : s.applyAll (os.filter fun o => retain || !o.isRaw) = .ok t) :
    (s.absorbAll retain ps).1 = t := by
  induction ps generalizing s os with
  | nil =>
      obtain rfl := List.map_eq_nil_iff.mp frames.symm
      cases run
      rfl
  | cons p ps ih =>
      obtain ⟨o, os, rfl, same, others⟩ := List.map_eq_cons_iff.mp frames.symm
      obtain ⟨first, all⟩ := List.forall_mem_cons.mp readable
      have held : p.frame.interpret s.mode = .ok o := by
        rw [show p.frame = o.frame from same.symm]
        exact OptionRecord.interpret_frame first
      rcases kept : retain || !o.isRaw
      · rw [List.filter_cons_of_neg (by simp [kept])] at run
        rcases absorbed : s.absorb retain p with e | next
        · rw [absorbAll_of_error absorbed]
          exact ih others.symm all run
        · obtain ⟨o', held', kept', -⟩ := absorb_eq_ok.mp absorbed
          rw [held'] at held
          cases held
          cases kept.symm.trans kept'
      · rw [List.filter_cons_of_pos (by simp [kept])] at run
        obtain ⟨next, applied, rest⟩ := applyAll_cons.mp run
        have absorbed : s.absorb retain p = .ok next := absorb_eq_ok.mpr ⟨o, held, kept, applied⟩
        rw [absorbAll_of_ok absorbed]
        refine ih others.symm ?_ rest
        rwa [(extends_of_apply applied).2.mode]

/-! ## Reading a set -/

variable {mode : Mode} {policy : Policy}

/-- Reading takes a length and a block of that length, whatever is in it. -/
theorem on_read_eq_ok {result : OptionSet × List Event} {c c' : Cursor} :
    (OptionSet.read mode policy).on c = (.ok result, c') ↔
      ∃ block : Bytes, block.length ≤ Frame.maxBlock ∧
        c.Passes (Bytes.ofUInt16 (UInt16.ofNat block.length) ++ block) c' ∧
        ofBlock mode policy block = result := by
  simp only [OptionSet.read, on_bind_eq_ok, on_readU16_eq_ok, CursorM.on_read_eq_ok,
    on_pure_eq_ok, Cursor.passes_append]
  constructor
  · intro h
    obtain ⟨length, c₁, first, ⟨block, size⟩, _, second, rfl, rfl⟩ := h
    have digits : UInt16.ofNat block.length = length := by rw [size, UInt16.ofNat_toNat]
    refine ⟨block, ?_, ⟨c₁, by rwa [digits], second⟩, rfl⟩
    rw [size]
    exact Nat.le_of_lt_succ length.toNat_lt
  · intro h
    obtain ⟨block, fits, ⟨c₁, first, second⟩, rfl⟩ := h
    have size : block.length = (UInt16.ofNat block.length).toNat :=
      (UInt16.toNat_ofNat_of_lt' (Nat.lt_succ_of_le fits)).symm
    exact ⟨_, c₁, first, ⟨block, size⟩, c', second, rfl, rfl⟩

theorem on_read_bytes {c c' : Cursor} (fits : s.recordsSize ≤ Frame.maxBlock)
    (passed : c.Passes s.bytes c') :
    (OptionSet.read mode policy).on c = (.ok (ofBlock mode policy s.block), c') := by
  refine on_read_eq_ok.mpr ⟨s.block, ?_, ?_, rfl⟩
  · rwa [length_block]
  · rwa [length_block]

theorem fst_ofBlock (mode : Mode) (policy : Policy) (block : Bytes) :
    (ofBlock mode policy block).1 = ((empty mode).absorbAll policy.retainUnrecognized
      ((Cursor.ofBytes block).frames policy.maxOptions).1).1 :=
  rfl

/-- Frames as the wire shows a block of them: behind the length of all. -/
def wire (fs : List Frame) : Bytes :=
  Bytes.ofUInt16 (UInt16.ofNat (fs.flatMap Frame.bytes).length) ++ fs.flatMap Frame.bytes

theorem bytes_eq_wire (s : OptionSet) : s.bytes = wire (s.records.map OptionRecord.frame) := by
  rw [wire, flatMap_frame, length_block, bytes]

/-- A block of frames is read to its end, and each of the frames is looked at. -/
theorem on_read_wire (mode : Mode) {fs : List Frame}
    (fits : (fs.flatMap Frame.bytes).length ≤ Frame.maxBlock)
    (room : fs.length ≤ policy.maxOptions) (behind : Bytes) :
    (OptionSet.read mode policy).on (.ofBytes (wire fs ++ behind)) =
      (.ok ((empty mode).absorbAll policy.retainUnrecognized (PlacedFrame.inOrder 0 fs)),
        ⟨(wire fs).toArray, behind⟩) := by
  refine on_read_eq_ok.mpr ⟨_, fits, Cursor.passes_ofBytes, ?_⟩
  have each : ∀ f ∈ fs, f.size ≤ Frame.maxBlock :=
    fun f hf => (Frame.size_le_of_mem hf).trans fits
  rw [ofBlock, Cursor.frames_flatMap each room]
  exact Prod.ext rfl (List.append_nil _)

/-- What a block says is a run of admissible options, no more than the policy
looks at, and none of them raw unless the policy keeps what is unrecognized. -/
theorem exists_applyAll_of_ofBlock (mode : Mode) (policy : Policy) (block : Bytes) :
    ∃ os : List OptionRecord, os.length ≤ policy.maxOptions ∧
      (∀ o ∈ os, (policy.retainUnrecognized || !o.isRaw) = true ∧
        ∃ f : Frame, f.interpret mode = .ok o) ∧
      (empty mode).applyAll os = .ok (ofBlock mode policy block).1 := by
  obtain ⟨os, few, each, run⟩ := exists_applyAll_of_absorbAll policy.retainUnrecognized
    (empty mode) ((Cursor.ofBytes block).frames policy.maxOptions).1
  rw [fst_ofBlock]
  exact ⟨os, few.trans (Cursor.length_frames_le _ _), each, run⟩

end OptionSet

end Socks6
