/-
# Socks6.Proofs.Abandoning — a block that breaks off

Where no record begins, or no further one is looked at, the rest of a block is
abandoned.  What was read before is not: it is the set that the block would say
if it ended there, and whatever comes behind records, more of them or damage,
only adds to what they say (`OptionSet.read_abandoning`).

`Frame.Torn` lists the ways in which bytes fail to begin with a record, and there
is no other (`Frame.torn_iff`).  The block is then cut in two where its leading
records end: cutting frames off it gives their frames and goes on behind them
(`Cursor.exists_frames_append`), and absorbing is a pass over a list, which can
be stopped and resumed (`OptionSet.fst_absorbAll_append`).
-/
import Socks6.Proofs.Grammar
import Socks6.Proofs.Persistence

namespace Socks6

open CursorM

/-! ## Bytes that begin with no record -/

namespace Frame

variable {f : Frame} {bs : Bytes}

/-- No record begins here: less than a header is left, or the header declares less
than itself, or more than is left. -/
inductive Torn : Bytes → Prop
  | noHeader {bs : Bytes} (few : bs.length < 4) : Torn bs
  | tooShort {k l hi lo : UInt8} {rest : Bytes} (short : Bytes.word hi lo < 4) :
    Torn (k :: l :: hi :: lo :: rest)
  | tooLong {k l hi lo : UInt8} {rest : Bytes} (long : rest.length + 4 < Bytes.word hi lo) :
    Torn (k :: l :: hi :: lo :: rest)

/-- The third and fourth byte of a frame spell its length. -/
theorem exists_header (fits : f.size ≤ maxBlock) :
    ∃ k l hi lo, f.bytes = k :: l :: hi :: lo :: f.body ∧ f.size = Bytes.word hi lo := by
  obtain ⟨k, l, kind⟩ := Bytes.exists_pair f.kind
  obtain ⟨hi, lo, length⟩ := Bytes.exists_pair (UInt16.ofNat f.size)
  refine ⟨k, l, hi, lo, ?_, ?_⟩
  · rw [bytes, kind, length]
    rfl
  · rw [← Bytes.ofUInt16_eq_pair.mp length]
    exact (UInt16.toNat_ofNat_of_lt' (Nat.lt_succ_of_le fits)).symm

theorem exists_of_header {k l hi lo : UInt8} {rest : Bytes} (long : 4 ≤ Bytes.word hi lo)
    (there : Bytes.word hi lo ≤ rest.length + 4) : ∃ (f : Frame) (behind : Bytes),
      f.size ≤ maxBlock ∧ k :: l :: hi :: lo :: rest = f.bytes ++ behind := by
  have cut : (rest.take (Bytes.word hi lo - 4)).length = Bytes.word hi lo - 4 := by
    rw [List.length_take]
    omega
  have size : Frame.size ⟨UInt16.ofNat (Bytes.value [k, l]), rest.take (Bytes.word hi lo - 4)⟩ =
      Bytes.word hi lo := by
    show 4 + (rest.take (Bytes.word hi lo - 4)).length = _
    rw [cut]
    omega
  have fits : Bytes.word hi lo ≤ maxBlock := by
    have high := hi.toNat_lt
    have low := lo.toNat_lt
    rw [Bytes.word, maxBlock]
    omega
  have length : Bytes.ofUInt16 (UInt16.ofNat (Bytes.word hi lo)) = [hi, lo] := by
    rw [Bytes.ofUInt16_eq_pair, UInt16.toNat_ofNat_of_lt' (Nat.lt_succ_of_le fits)]
  have kind : Bytes.ofUInt16 (UInt16.ofNat (Bytes.value [k, l])) = [k, l] :=
    Bytes.ofUInt16_value rfl
  refine ⟨⟨UInt16.ofNat (Bytes.value [k, l]), rest.take (Bytes.word hi lo - 4)⟩,
    rest.drop (Bytes.word hi lo - 4), size.trans_le fits, ?_⟩
  rw [bytes, size, kind, length]
  simp

/-- Bytes are torn exactly if no frame stands at their beginning. -/
theorem torn_iff : Torn bs ↔ ¬∃ (f : Frame) (behind : Bytes),
    f.size ≤ maxBlock ∧ bs = f.bytes ++ behind := by
  constructor
  · intro torn begun
    obtain ⟨f, behind, fits, eq⟩ := begun
    obtain ⟨k, l, hi, lo, spelled, length⟩ := exists_header fits
    have size : f.size = 4 + f.body.length := rfl
    rw [spelled] at eq
    cases torn with
    | noHeader few =>
        rw [eq] at few
        simp only [List.cons_append, List.length_cons] at few
        omega
    | tooShort short =>
        simp only [List.cons_append, List.cons.injEq] at eq
        obtain ⟨-, -, rfl, rfl, -⟩ := eq
        omega
    | tooLong long =>
        simp only [List.cons_append, List.cons.injEq] at eq
        obtain ⟨-, -, rfl, rfl, rfl⟩ := eq
        rw [List.length_append] at long
        omega
  · intro none
    rcases bs with _ | ⟨k, _ | ⟨l, _ | ⟨hi, _ | ⟨lo, rest⟩⟩⟩⟩
    · exact .noHeader (by simp)
    · exact .noHeader (by simp)
    · exact .noHeader (by simp)
    · exact .noHeader (by simp)
    · by_cases short : Bytes.word hi lo < 4
      · exact .tooShort short
      · by_cases long : rest.length + 4 < Bytes.word hi lo
        · exact .tooLong long
        · exact absurd (exists_of_header (by omega) (by omega)) none

end Frame

/-! ## Blocks in two parts -/

namespace Cursor

variable {c : Cursor}

theorem frames_of_torn (torn : Frame.Torn c.rest) (n : Nat) : (c.frames n).1 = [] := by
  cases n with
  | zero => rfl
  | succ n =>
      rw [frames]
      split
      · rfl
      · split
        · rfl
        · rename_i f c' read
          obtain ⟨fits, passed⟩ := Frame.on_read_eq_ok.mp read
          exact absurd ⟨f, c'.rest, fits, passed.1⟩ (Frame.torn_iff.mp torn)

theorem frames_of_stopped {used limit : Nat} (stop : used = limit ∨ Frame.Torn c.rest) :
    (c.frames (limit - used)).1 = [] := by
  rcases stop with full | torn
  · rw [full, Nat.sub_self]
    rfl
  · exact frames_of_torn torn _

/-- Frames in front of other bytes are cut off in order, and then it goes on with
those bytes and what is left of the limit. -/
theorem exists_frames_append {fs : List Frame} {tail : Bytes}
    (fits : ∀ f ∈ fs, f.size ≤ Frame.maxBlock) (h : c.rest = fs.flatMap Frame.bytes ++ tail)
    {n : Nat} (room : fs.length ≤ n) :
    ∃ c' : Cursor, c'.rest = tail ∧
      (c.frames n).1 = PlacedFrame.inOrder c.offset fs ++ (c'.frames (n - fs.length)).1 := by
  -- the cursor moves on with the frames, and places are counted from where it stands
  induction fs generalizing c n with
  | nil => exact ⟨c, h, rfl⟩
  | cons f fs ih =>
      obtain ⟨first, others⟩ := List.forall_mem_cons.mp fits
      cases n with
      | zero => cases room
      | succ n =>
          rw [List.flatMap_cons, List.append_assoc] at h
          let next : Cursor := ⟨c.passed ++ f.bytes, fs.flatMap Frame.bytes ++ tail⟩
          have passed : c.Passes f.bytes next := ⟨h, by simp [next]⟩
          obtain ⟨c', behind, placed⟩ := ih (c := next) others rfl (Nat.le_of_succ_le_succ room)
          refine ⟨c', behind, ?_⟩
          rw [passed.offset_eq, Frame.length_bytes] at placed
          rw [frames_cons first passed, placed, List.length_cons, Nat.add_sub_add_right]
          rfl

end Cursor

namespace OptionSet

variable {policy : Policy} {fs : List Frame} {tail : Bytes}

theorem fst_absorbAll_append (retain : Bool) (s : OptionSet) (ps qs : List PlacedFrame) :
    (s.absorbAll retain (ps ++ qs)).1 = ((s.absorbAll retain ps).1.absorbAll retain qs).1 := by
  induction ps generalizing s with
  | nil => rfl
  | cons p ps ih => rw [List.cons_append, fst_absorbAll_cons, fst_absorbAll_cons, ih]

/-- What a block says goes on from what its leading frames say, and stays there if
no further frame is cut off. -/
theorem ofBlock_append (mode : Mode) (fits : ∀ f ∈ fs, f.size ≤ Frame.maxBlock)
    (room : fs.length ≤ policy.maxOptions) (tail : Bytes) :
    let s := ((empty mode).absorbAll policy.retainUnrecognized (PlacedFrame.inOrder 0 fs)).1
    let t := (ofBlock mode policy (fs.flatMap Frame.bytes ++ tail)).1
    (Frame.Torn tail ∨ fs.length = policy.maxOptions → t = s) ∧ s.Keeps t := by
  intro s t
  obtain ⟨c', behind, placed⟩ := Cursor.exists_frames_append
    (c := .ofBytes (fs.flatMap Frame.bytes ++ tail)) fits rfl room
  have more : t = (s.absorbAll policy.retainUnrecognized
      (c'.frames (policy.maxOptions - fs.length)).1).1 := by
    show (ofBlock mode policy _).1 = _
    rw [fst_ofBlock, placed, fst_absorbAll_append]
    rfl
  rw [more]
  constructor
  · intro ended
    rw [Cursor.frames_of_stopped (behind ▸ ended.symm)]
    rfl
  · exact keeps_absorbAll _ _ _

/-! ## Reading -/

/-- A block as the wire shows it: behind its length. -/
def counted (block : Bytes) : Bytes := Bytes.ofUInt16 (UInt16.ofNat block.length) ++ block

/-- Records and any bytes behind them are read as one block, and so are the records
alone; what the records say is kept, and nothing else is said if the bytes behind
them begin with no record, or if no further record is looked at. -/
theorem read_abandoning (mode : Mode)
    (fits : (fs.flatMap Frame.bytes ++ tail).length ≤ Frame.maxBlock)
    (room : fs.length ≤ policy.maxOptions) (behind : Bytes) :
    let whole := counted (fs.flatMap Frame.bytes ++ tail)
    ∃ s t events events',
      (OptionSet.read mode policy).on (.ofBytes (wire fs ++ behind)) =
        (.ok (s, events), ⟨(wire fs).toArray, behind⟩) ∧
      (OptionSet.read mode policy).on (.ofBytes (whole ++ behind)) =
        (.ok (t, events'), ⟨whole.toArray, behind⟩) ∧
      (Frame.Torn tail ∨ fs.length = policy.maxOptions → t = s) ∧ s.Keeps t := by
  intro whole
  have front : (fs.flatMap Frame.bytes).length ≤ Frame.maxBlock := by
    rw [List.length_append] at fits
    omega
  obtain ⟨stays, keeps⟩ := ofBlock_append mode
    (fun f hf => (Frame.size_le_of_mem hf).trans front) room tail
  exact ⟨_, _, _, _, on_read_wire mode front room behind,
    on_read_eq_ok.mpr ⟨_, fits, Cursor.passes_ofBytes, rfl⟩, stays, keeps⟩

/-- A setting, and behind it a header that declares more than is left. -/
theorem read_abandoning_cut :
    let fs : List Frame := [⟨1, [3, 1, 1, 7]⟩]
    let tail : Bytes := [0, 4, 0, 8, 1]
    let whole := counted (fs.flatMap Frame.bytes ++ tail)
    (fs.flatMap Frame.bytes ++ tail).length ≤ Frame.maxBlock ∧
    fs.length ≤ Policy.strict.maxOptions ∧ Frame.Torn tail ∧
    ∃ s events events',
      (OptionSet.read .request .strict).on (.ofBytes (wire fs ++ [9])) =
        (.ok (s, events), ⟨(wire fs).toArray, [9]⟩) ∧
      (OptionSet.read .request .strict).on (.ofBytes (whole ++ [9])) =
        (.ok (s, events'), ⟨whole.toArray, [9]⟩) := by
  intro fs tail whole
  have fits : (fs.flatMap Frame.bytes ++ tail).length ≤ Frame.maxBlock := by decide
  have room : fs.length ≤ Policy.strict.maxOptions := by decide
  have torn : Frame.Torn tail := .tooLong (by decide)
  obtain ⟨s, t, events, events', front, read, stays, -⟩ :=
    read_abandoning .request fits room [9]
  rw [stays (.inl torn)] at read
  exact ⟨fits, room, torn, s, events, events', front, read⟩

end OptionSet

end Socks6
