/-
# Socks6.Proofs.Forwarding — what nobody interprets is forwarded as it came

Under a policy that keeps what is unrecognized, a set that is read from a block
passes on just those frames of the block that are not interpreted: all of them,
each as often as it came, in the order of the wire, whatever stands between them
and whether or not that is accepted.  When the set is written, their bytes come
last and are the bytes that were read (`OptionSet.read_forwards`).  So a block of
nothing else is written again byte for byte.

One frame that is offered to a set adds itself to the frames of the set, or adds
none (`OptionSet.raw_absorb`), and the whole block does so frame by frame.  What
is written is divided by `OptionSet.bare`: the block of the set without its
frames stands in front of the frames.
-/
import Socks6.Proofs.Retention

namespace Socks6

open CursorM

namespace OptionSet

variable {s : OptionSet} {p : PlacedFrame} {policy : Policy}

/-! ## Frames that are kept -/

/-- A frame that is offered to a set is passed on if it is not interpreted; if it
is, no frame is passed on for it. -/
theorem raw_absorb (s : OptionSet) (p : PlacedFrame) :
    ((s.absorb true p).toOption.getD s).raw =
      s.raw ++ [p.frame].filter (·.isUninterpreted s.mode) := by
  rcases seen : p.frame.isUninterpreted s.mode
  · rw [List.filter_cons_of_neg (by simp [seen]), List.filter_nil, List.append_nil]
    rcases taken : s.absorb true p with e | t
    · rfl
    · obtain ⟨o, held, -, applied⟩ := absorb_eq_ok.mp taken
      have step := (extends_of_apply applied).2
      have interpreted : o.isRaw = false := (Frame.isRaw_of_interpret held).trans seen
      rw [OptionRecord.frames_of_interpreted interpreted] at step
      exact step.raw.trans (List.append_nil _)
  · rw [(absorb_uninterpreted seen).1, List.filter_cons_of_pos (by simp [seen]), List.filter_nil]
    rfl

/-- Frames that are offered to a set are passed on as far as they are not interpreted. -/
theorem raw_absorbAll (s : OptionSet) (ps : List PlacedFrame) :
    (s.absorbAll true ps).1.raw =
      s.raw ++ (ps.map (·.frame)).filter (·.isUninterpreted s.mode) := by
  induction ps generalizing s with
  | nil => exact (List.append_nil _).symm
  | cons p ps ih =>
      rw [fst_absorbAll_cons, ih, mode_absorb, raw_absorb, List.append_assoc, ← List.filter_append]
      rfl

theorem absorbAll_uninterpreted {ps : List PlacedFrame}
    (unknown : ∀ p ∈ ps, p.frame.isUninterpreted s.mode = true) :
    s.absorbAll true ps = ({ s with raw := s.raw ++ ps.map (·.frame) }, []) := by
  induction ps generalizing s with
  | nil => rw [absorbAll, List.map_nil, List.append_nil]
  | cons p ps ih =>
      obtain ⟨first, others⟩ := List.forall_mem_cons.mp unknown
      have rest := ih (s := { s with raw := s.raw ++ [p.frame] }) others
      rw [absorbAll_of_ok (absorb_uninterpreted first).1, rest, List.append_assoc]
      rfl

/-! ## Frames that are written -/

/-- The frames that are passed on are written behind everything else. -/
theorem block_eq (s : OptionSet) : s.block = s.bare.block ++ s.raw.flatMap Frame.bytes := by
  have split : s.records = s.bare.records ++ s.raw.map .raw := by simp [records, bare]
  rw [block, split, List.flatMap_append, List.flatMap_map]
  rfl

theorem encode_of_raw {mode : Mode} {fs : List Frame}
    (fits : (fs.flatMap Frame.bytes).length ≤ Frame.maxBlock) :
    encode { empty mode with raw := fs } = .ok (wire fs) := by
  have frames : block { empty mode with raw := fs } = fs.flatMap Frame.bytes := by
    have silent : (bare { empty mode with raw := fs }).block = [] :=
      congrArg (List.flatMap _) (records_empty mode)
    rw [block_eq, silent, List.nil_append]
  have length : recordsSize { empty mode with raw := fs } = (fs.flatMap Frame.bytes).length := by
    rw [← length_block, frames]
  refine encode_eq_ok.mpr ⟨length ▸ fits, ?_⟩
  rw [wire, bytes, frames, length]

/-! ## Blocks that are forwarded -/

/-- Of the frames of a block, a set that keeps what is unrecognized passes on those
that are not interpreted, and the bytes that are written for it end with theirs. -/
theorem read_forwards (mode : Mode) {fs : List Frame}
    (fits : (fs.flatMap Frame.bytes).length ≤ Frame.maxBlock)
    (room : fs.length ≤ policy.maxOptions) (retain : policy.retainUnrecognized = true)
    (behind : Bytes) :
    let kept := fs.filter (·.isUninterpreted mode)
    ∃ s events,
      (OptionSet.read mode policy).on (.ofBytes (wire fs ++ behind)) =
        (.ok (s, events), ⟨(wire fs).toArray, behind⟩) ∧
      s.raw = kept ∧
      (∀ c c' : Cursor, s.write.on c = (.ok (), c') →
        c'.passed.toList = c.passed.toList ++
          (Bytes.ofUInt16 (UInt16.ofNat s.recordsSize) ++ s.bare.block ++
            kept.flatMap Frame.bytes)) ∧
      ((∀ f ∈ fs, f.isUninterpreted mode = true) → events = [] ∧ s.encode = .ok (wire fs)) := by
  intro kept
  have read := on_read_wire mode fits room behind
  have raw := raw_absorbAll (empty mode) (PlacedFrame.inOrder 0 fs)
  rw [PlacedFrame.frames_inOrder] at raw
  rw [retain] at read
  refine ⟨_, _, read, raw, fun c c' written => ?_, fun unknown => ?_⟩
  · obtain ⟨-, -, -, puts⟩ := ((writes _) c c').mp written
    rw [puts, bytes, block_eq, raw, List.append_assoc]
    rfl
  · have each : ∀ p ∈ PlacedFrame.inOrder 0 fs, p.frame.isUninterpreted mode = true :=
      fun p hp => unknown p.frame (PlacedFrame.frame_mem_of_mem_inOrder hp)
    have taken := absorbAll_uninterpreted (s := empty mode) each
    rw [PlacedFrame.frames_inOrder] at taken
    rw [taken]
    exact ⟨rfl, encode_of_raw fits⟩

/-- A frame that comes twice, a setting, a setting with a broken body, and a frame
of no aligned length. -/
theorem read_forwards_mixed :
    let fs : List Frame := [⟨99, [1]⟩, ⟨1, [3, 1, 1, 7]⟩, ⟨1, [9]⟩, ⟨99, [1]⟩, ⟨65535, [2, 0, 3]⟩]
    (fs.flatMap Frame.bytes).length = 30 ∧ fs.length ≤ Policy.passthrough.maxOptions ∧
    ∃ s events,
      (OptionSet.read .request .passthrough).on (.ofBytes (wire fs ++ [6])) =
        (.ok (s, events), ⟨(wire fs).toArray, [6]⟩) ∧
      s.raw = [⟨99, [1]⟩, ⟨99, [1]⟩, ⟨65535, [2, 0, 3]⟩] ∧
      (∀ c c' : Cursor, s.write.on c = (.ok (), c') →
        c'.passed.toList = c.passed.toList ++
          (Bytes.ofUInt16 (UInt16.ofNat s.recordsSize) ++ s.bare.block ++
            [0, 99, 0, 5, 1, 0, 99, 0, 5, 1, 255, 255, 0, 7, 2, 0, 3])) := by
  intro fs
  have fits : (fs.flatMap Frame.bytes).length = 30 := by decide
  have room : fs.length ≤ Policy.passthrough.maxOptions := by decide
  obtain ⟨s, events, read, raw, writes, -⟩ :=
    read_forwards .request (fits.trans_le (by decide)) room rfl [6]
  have kept : fs.filter (·.isUninterpreted .request) =
      [⟨99, [1]⟩, ⟨99, [1]⟩, ⟨65535, [2, 0, 3]⟩] := by rfl
  rw [kept] at raw writes
  exact ⟨fits, room, s, events, read, raw, writes⟩

end OptionSet

end Socks6
