/-
# Socks6.Proofs.Layout — where the records of a written block stand

The block that is written for a set is cut into frames again, one for each record
in the order of the records, and nothing is left over.  Those that are interpreted
start and end on multiples of four bytes (`OptionSet.write_laid_out`).

What goes from one record to the next is the place.  A padded record moves it on by
a multiple of four, and a frame that is passed on moves it by any number of bytes,
so an aligned place is kept only up to the first such frame.  It is needed no longer
either: `OptionSet.pairwise_records` says that nothing interpreted follows, and this
is what the induction over the records carries besides the place
(`PlacedFrame.standsAt_inOrder`).
-/
import Socks6.Proofs.RoundTrip

namespace Socks6

open CursorM

/-! ## One record -/

namespace OptionRecord

variable {mode : Mode} {o : OptionRecord}

theorem four_dvd_size (interpreted : o.isRaw = false) : 4 ∣ o.size := by
  have aligned := Alignment.padded_aligned o.bodySize Frame.headerSize
  rw [size_of_interpreted interpreted, Nat.add_comm]
  exact Nat.dvd_of_mod_eq_zero aligned

/-- The record stands at a place of a block: the frame there has its kind and its
length, is what the record alone is written as, and is interpreted as the record,
if the methods that it offers are canonical.  Unless the record is raw, the frame
starts and ends on a multiple of four. -/
structure StandsAt (mode : Mode) (p : PlacedFrame) (o : OptionRecord) : Prop where
  kind : p.frame.kind = o.kind
  size : p.frame.size = o.size
  written : Writes o.write True p.frame.bytes
  found : (∀ a, o = .advertisement a → ∀ m ∈ a.methods, m.Canonical) →
    p.frame.interpret mode = .ok o
  aligned : o.isRaw = false → 4 ∣ p.offset ∧ 4 ∣ p.frame.size

end OptionRecord

/-! ## The records of a set -/

namespace PlacedFrame

variable {mode : Mode} {os : List OptionRecord}

/-- Records stand one behind the other, if each of them can stand wherever its
alignment allows and none that is interpreted stands behind a raw one. -/
theorem standsAt_inOrder {place : Nat}
    (each : ∀ o ∈ os, ∀ offset, (o.isRaw = false → 4 ∣ offset) →
      o.StandsAt mode ⟨offset, o.frame⟩)
    (last : os.Pairwise fun o o' => o.isRaw = true → o'.isRaw = true)
    (start : ∀ o ∈ os, o.isRaw = false → 4 ∣ place) :
    List.Forall₂ (OptionRecord.StandsAt mode) (inOrder place (os.map OptionRecord.frame)) os := by
  induction os generalizing place with
  | nil => exact .nil
  | cons o os ih =>
      obtain ⟨first, others⟩ := List.forall_mem_cons.mp each
      obtain ⟨here, behind⟩ := List.pairwise_cons.mp last
      refine .cons (first place (start o List.mem_cons_self)) (ih others behind ?_)
      -- the next place matters only to an interpreted record, and then this one is no raw one
      intro o' later interpreted
      have front : o.isRaw = false := by
        rcases raw : o.isRaw
        · rfl
        · cases interpreted.symm.trans (here o' later raw)
      rw [OptionRecord.size_frame]
      exact (start o List.mem_cons_self front).add (OptionRecord.four_dvd_size front)

end PlacedFrame

namespace OptionSet

variable {s : OptionSet} {o : OptionRecord}

/-- No record that is interpreted is written behind one that is passed on. -/
theorem pairwise_records (s : OptionSet) :
    s.records.Pairwise fun o o' => o.isRaw = true → o'.isRaw = true := by
  obtain ⟨os, interpreted, split⟩ := s.exists_records_eq
  have raw : ∀ o ∈ s.raw.map OptionRecord.raw, o.isRaw = true := by
    intro o listed
    obtain ⟨f, -, rfl⟩ := List.mem_map.mp listed
    rfl
  rw [split]
  refine List.pairwise_append.mpr ⟨List.pairwise_of_forall_mem_list ?_,
    List.pairwise_of_forall_mem_list ?_, fun o _ o' listed _ => raw o' listed⟩
  · intro o listed o' _ first
    cases (interpreted o listed).symm.trans first
  · intro o _ o' listed _
    exact raw o' listed

theorem Lawful.standsAt (h : s.Lawful) (fits : s.recordsSize ≤ Frame.maxBlock)
    (listed : o ∈ s.records) (offset : Nat) (start : o.isRaw = false → 4 ∣ offset) :
    o.StandsAt s.mode ⟨offset, o.frame⟩ where
  kind := o.kind_frame
  size := o.size_frame
  written := o.writes.congr (iff_true_intro (size_le_maxBlock fits listed))
  found := by
    intro canonical
    refine OptionRecord.interpret_frame ?_
    cases o with
    | advertisement a =>
        obtain ⟨-, rfl⟩ := MethodGroup.advertisement_eq_some.mp (mem_records.mp listed)
        exact ⟨canonical _ rfl, h.noAuth_not_advertised⟩
    | _ => exact h.readable_of_ne listed nofun
  aligned := by
    intro interpreted
    rw [OptionRecord.size_frame]
    exact ⟨start interpreted, OptionRecord.four_dvd_size interpreted⟩

/-- What is written for a set that can arise is the length of a block and the block.
The block is cut into frames to its end, and in these the records of the set stand,
each in one and in their order: first those that are interpreted, on multiples of
four bytes, and then those that are passed on, of whatever length. -/
theorem write_laid_out {c c' : Cursor} (arises : s.Reachable)
    (written : s.write.on c = (.ok (), c')) :
    ∃ (length block : Bytes) (placed : List PlacedFrame),
      c.Puts (length ++ block) c' ∧ length.length = 2 ∧ length.value = block.length ∧
      (∀ limit, s.records.length ≤ limit →
        (Cursor.ofBytes block).frames limit = (placed, .complete)) ∧
      List.Forall₂ (OptionRecord.StandsAt s.mode) placed s.records ∧
      s.records.Pairwise fun o o' => o.isRaw = true → o'.isRaw = true := by
  obtain ⟨fits, puts⟩ := (s.writes c c').mp written
  let frames := s.records.map OptionRecord.frame
  refine ⟨_, s.block, PlacedFrame.inOrder 0 frames, puts, Bytes.length_ofUInt16 _, ?_, ?_, ?_,
    s.pairwise_records⟩
  · rw [Bytes.value_ofUInt16, UInt16.toNat_ofNat_of_lt' (Nat.lt_succ_of_le fits), length_block]
  · intro limit room
    have few : frames.length ≤ limit := by rwa [List.length_map]
    rw [← flatMap_frame]
    exact Cursor.frames_flatMap (size_frame_le fits) few
  · refine PlacedFrame.standsAt_inOrder (fun o listed => ?_) s.pairwise_records
      (fun _ _ _ => Nat.dvd_zero 4)
    exact arises.lawful.standsAt fits listed

/-- A frame of five bytes, which is passed on, and two records that are set after it;
one of them leaves a gap. -/
theorem write_laid_out_unaligned :
    let s := (empty .request).run [.raw ⟨99, [1]⟩, .fastOpen .both 1200, .requestSession]
    let c : Cursor := ⟨#[6], List.replicate 30 255⟩
    let c' : Cursor := ⟨#[6, 0, 25, 0, 1, 0, 12, 3, 4, 1, 4, 176, 0, 0, 0, 0, 4, 0, 8, 1, 0, 0, 0,
      0, 99, 0, 5, 1], List.replicate 3 255⟩
    s.Reachable ∧ s.write.on c = (.ok (), c') ∧
    ∃ placed, placed.map (·.offset) = [0, 12, 20] ∧
      List.Forall₂ (OptionRecord.StandsAt s.mode) placed s.records := by
  intro s c c'
  have arises : s.Reachable := Reachable.run (.empty .request) _
  have puts : c.Puts s.bytes c' := ⟨by decide, by decide, by decide⟩
  have written : s.write.on c = (.ok (), c') := (s.writes c c').mpr ⟨by decide, puts⟩
  obtain ⟨length, block, placed, puts, two, -, cut, stand, -⟩ := write_laid_out arises written
  have spelled : block = c'.passed.toList.drop 3 := by
    rw [puts.2.2, ← List.append_assoc, List.drop_left']
    rw [List.length_append, two]
    rfl
  have found : (Cursor.ofBytes (c'.passed.toList.drop 3)).frames 3 = (placed, .complete) :=
    spelled ▸ cut 3 (by decide)
  have places : ((Cursor.ofBytes (c'.passed.toList.drop 3)).frames 3).1.map (·.offset) =
      [0, 12, 20] := by decide
  rw [found] at places
  exact ⟨arises, written, placed, places, stand⟩

end OptionSet

end Socks6
