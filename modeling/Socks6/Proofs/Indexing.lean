/-
# Socks6.Proofs.Indexing — a buffer in one piece goes as one that is cut in two

The actions of `IndexedM` compute with positions of 64 bits and may fault; those of
`CursorM` cut a list and cannot.  `IndexedM.Follows x r y` says that the first makes
of a cursor what the second makes, up to the form of the results (`r`), and does not
fault.  So every sum that the first forms is one, and every part of a buffer that it
uses is there.  It is closed under sequences, and each operation of a cursor is an
instance (`CursorOp.follows`).

What carries this is the check that stands in front of an access.  It compares with
what is left, which is a difference that exists, and so the sum behind it is at most
the length of the buffer.  Only `patch` forms a sum first, and there the largest
position stands for all that are none: no buffer reaches it.
-/
import Socks6.Cursor.Indexed
import Socks6.Proofs.Writing

namespace Socks6

/-! ## Positions that can be computed -/

namespace Index

variable {a b : Index}

theorem sum_eq_ok (small : a.toNat + b.toNat < 2 ^ 64) :
    sum a b = .ok (UInt64.ofNat (a.toNat + b.toNat)) := by
  rw [sum, if_pos small, UInt64.ofNat_add, UInt64.ofNat_toNat, UInt64.ofNat_toNat]

theorem toNat_sumSaturating (a b : Index) :
    (sumSaturating a b).toNat = min (a.toNat + b.toNat) (2 ^ 64 - 1) := by
  unfold sumSaturating
  split
  · rename_i small
    rw [UInt64.toNat_add, Nat.mod_eq_of_lt small]
    omega
  · rename_i large
    rw [UInt64.toNat_ofNat_of_lt' (by decide)]
    omega

theorem toNat_differenceSaturating (a b : Index) :
    (differenceSaturating a b).toNat = a.toNat - b.toNat := by
  unfold differenceSaturating
  split
  · rename_i ordered
    exact UInt64.toNat_sub_of_le _ _ ordered
  · rename_i reversed
    have ahead := UInt64.lt_iff_toNat_lt.mp (UInt64.not_le.mp reversed)
    rw [Nat.sub_eq_zero_of_le ahead.le]
    rfl

theorem toNat_ofNat {n : Nat} (small : n < 2 ^ 63) : (UInt64.ofNat n : Index).toNat = n :=
  UInt64.toNat_ofNat_of_lt' (show n < 2 ^ 64 by omega)

end Index

namespace IndexedCursor

/-- The buffer fits into memory. -/
def Stored (c : IndexedCursor) : Prop := c.buffer.length < 2 ^ 63

variable {c : IndexedCursor} {start stop n : Index} {bs : Bytes}

theorem Stored.toNat_length (h : c.Stored) : c.length.toNat = c.buffer.length :=
  Index.toNat_ofNat h

theorem Stored.remaining_eq_ok (h : c.Stored) (inside : c.offset.toNat ≤ c.buffer.length) :
    c.remaining = .ok (UInt64.ofNat (c.buffer.length - c.offset.toNat)) := by
  have ordered : c.offset ≤ c.length := by
    rw [UInt64.le_iff_toNat_le, h.toNat_length]
    exact inside
  rw [remaining, Index.difference, if_pos ordered, length, UInt64.ofNat_sub inside,
    UInt64.ofNat_toNat]

theorem Stored.slice_eq_ok (h : c.Stored) (ordered : start.toNat ≤ stop.toNat)
    (inside : stop.toNat ≤ c.buffer.length) :
    c.slice start stop = .ok (c.between start.toNat stop.toNat) := by
  refine if_pos ⟨UInt64.le_iff_toNat_le.mpr ordered, UInt64.le_iff_toNat_le.mpr ?_⟩
  rw [h.toNat_length]
  exact inside

theorem length_between (c : IndexedCursor) {first last : Nat} (inside : last ≤ c.buffer.length) :
    (c.between first last).length = last - first := by
  rw [between, List.length_take, List.length_drop]
  omega

theorem Stored.replace_eq_ok (h : c.Stored) (ordered : start.toNat ≤ stop.toNat)
    (inside : stop.toNat ≤ c.buffer.length) (size : bs.length = stop.toNat - start.toNat) :
    c.replace start stop bs =
      .ok ⟨c.buffer.take start.toNat ++ bs ++ c.buffer.drop stop.toNat, c.offset⟩ := by
  rw [replace, h.slice_eq_ok ordered inside]
  exact if_pos ((c.length_between inside).trans size.symm)

end IndexedCursor

namespace IndexedM

variable {α : Type} {c : IndexedCursor} {start n : Index} {bs : Bytes}

theorem on_forward (h : c.Stored) (room : c.offset.toNat + n.toNat ≤ c.buffer.length) :
    (forward n).on c = .ok (.ok (), ⟨c.buffer, UInt64.ofNat (c.offset.toNat + n.toNat)⟩) := by
  have small : c.buffer.length < 2 ^ 63 := h
  rw [forward, on_change, Index.sum_eq_ok (by omega)]
  rfl

theorem on_slice (h : c.Stored) (room : start.toNat + n.toNat ≤ c.buffer.length) :
    (slice start n).on c =
      .ok (.ok (c.between start.toNat (start.toNat + n.toNat)), c) := by
  have small : c.buffer.length < 2 ^ 63 := h
  have stop : (UInt64.ofNat (start.toNat + n.toNat) : Index).toNat = start.toNat + n.toNat :=
    Index.toNat_ofNat (by omega)
  rw [slice, on_look, Index.sum_eq_ok (by omega)]
  show (c.slice start _).map _ = _
  rw [h.slice_eq_ok (by omega) (by omega), stop]
  rfl

theorem on_replace (h : c.Stored) (room : start.toNat + n.toNat ≤ c.buffer.length)
    (size : bs.length = n.toNat) :
    (replace start n bs).on c =
      .ok (.ok (), ⟨c.buffer.take start.toNat ++ bs ++ c.buffer.drop (start.toNat + n.toNat),
        c.offset⟩) := by
  have small : c.buffer.length < 2 ^ 63 := h
  have stop : (UInt64.ofNat (start.toNat + n.toNat) : Index).toNat = start.toNat + n.toNat :=
    Index.toNat_ofNat (by omega)
  rw [replace, on_change, Index.sum_eq_ok (by omega)]
  show (c.replace start _ bs).map _ = _
  rw [h.replace_eq_ok (by omega) (by omega) (by omega), stop]
  rfl

theorem on_check (h : c.Stored) (inside : c.offset.toNat ≤ c.buffer.length) (access : Access)
    (n : Index) :
    (check access n).on c = .ok (if c.offset.toNat + n.toNat ≤ c.buffer.length then .ok () else
      .error (.truncated n.toNat (c.buffer.length - c.offset.toNat)
        (.cursor access c.offset.toNat)), c) := by
  have small : c.buffer.length < 2 ^ 63 := h
  have left : (UInt64.ofNat (c.buffer.length - c.offset.toNat) : Index).toNat =
      c.buffer.length - c.offset.toNat := Index.toNat_ofNat (by omega)
  rw [check, on_bind, on_look, h.remaining_eq_ok inside]
  simp only [Except.map, UInt64.lt_iff_toNat_lt, left]
  by_cases room : c.offset.toNat + n.toNat ≤ c.buffer.length
  · rw [if_pos room, if_neg (by omega)]
    rfl
  · rw [if_neg room, if_pos (by omega)]
    rfl

end IndexedM

/-! ## One cursor in two forms -/

namespace Cursor

/-- The cursor with its buffer in one piece. -/
def indexed (c : Cursor) : IndexedCursor := ⟨c.buffer, UInt64.ofNat c.offset⟩

variable {c c' : Cursor} {n : Nat}

@[simp] theorem buffer_indexed (c : Cursor) : c.indexed.buffer = c.buffer := rfl

theorem offset_le_length (c : Cursor) : c.offset ≤ c.length := Nat.le_add_right _ _

theorem indexed_ofBytes (b : Bytes) : (ofBytes b).indexed = .ofBytes b := by
  rw [indexed, buffer_ofBytes]
  rfl

theorem stored_indexed : c.indexed.Stored ↔ c.length < 2 ^ 63 := by
  rw [IndexedCursor.Stored, buffer_indexed, length_buffer]

theorem stored_of_length_eq (stored : c.indexed.Stored) (kept : c'.length = c.length) :
    c'.indexed.Stored := by
  rw [stored_indexed, kept]
  exact stored_indexed.mp stored

theorem toNat_offset_indexed (h : c.indexed.Stored) : c.indexed.offset.toNat = c.offset :=
  Index.toNat_ofNat (c.offset_le_length.trans_lt (stored_indexed.mp h))

theorem inside_indexed (h : c.indexed.Stored) :
    c.indexed.offset.toNat ≤ c.indexed.buffer.length := by
  rw [toNat_offset_indexed h, buffer_indexed, length_buffer]
  exact c.offset_le_length

theorem left_indexed (h : c.indexed.Stored) :
    c.indexed.buffer.length - c.indexed.offset.toNat = c.remaining := by
  rw [toNat_offset_indexed h, buffer_indexed, length_buffer]
  exact Nat.add_sub_cancel_left _ _

theorem room_indexed (h : c.indexed.Stored) :
    c.indexed.offset.toNat + n ≤ c.indexed.buffer.length ↔ n ≤ c.remaining := by
  rw [toNat_offset_indexed h, buffer_indexed, length_buffer, length]
  omega

theorem between_indexed (c : Cursor) (n : Nat) :
    c.indexed.between c.offset (c.offset + n) = c.rest.take n := by
  simp [IndexedCursor.between, indexed, buffer, offset]

theorem between_advance (c : Cursor) (n : Nat) :
    (c.advance n).indexed.between c.offset (c.offset + n) = c.rest.take n := by
  rw [← between_indexed, IndexedCursor.between, IndexedCursor.between, buffer_indexed,
    buffer_indexed, buffer_advance]

theorem stored_advance (h : c.indexed.Stored) (n : Nat) : (c.advance n).indexed.Stored :=
  stored_of_length_eq h (c.length_advance n)

end Cursor

/-! ## One action in two forms -/

open CursorM

namespace IndexedM

variable {α β γ δ : Type} {x : IndexedM α} {y : CursorM β} {r : β → α}

theorem on_forward_indexed {n : Index} {c : Cursor} (stored : c.indexed.Stored)
    (room : n.toNat ≤ c.remaining) :
    (forward n).on c.indexed = .ok (.ok (), (c.advance n.toNat).indexed) := by
  rw [on_forward stored ((Cursor.room_indexed stored).mpr room), Cursor.toNat_offset_indexed stored,
    Cursor.indexed, Cursor.indexed, Cursor.buffer_advance, Cursor.offset_advance room]

/-- On a cursor that fits into memory, the one action makes in one piece what the other
makes in two, and does not fault.  The buffer keeps its length. -/
def Follows (x : IndexedM α) (r : β → α) (y : CursorM β) : Prop :=
  ∀ c : Cursor, c.indexed.Stored →
    x.on c.indexed = .ok ((y.on c).1.map r, (y.on c).2.indexed) ∧ (y.on c).2.length = c.length

namespace Follows

theorem pure (b : β) : Follows (pure (r b)) r (pure b) := by
  intro c _
  exact ⟨rfl, rfl⟩

theorem bind {f : α → IndexedM γ} {g : β → CursorM δ} {s : δ → γ} (hx : Follows x r y)
    (hf : ∀ b, Follows (f (r b)) s (g b)) : Follows (x >>= f) s (y >>= g) := by
  intro c stored
  obtain ⟨first, length⟩ := hx c stored
  rw [IndexedM.on_bind, CursorM.on_bind, first]
  rcases h : y.on c with ⟨e | b, c'⟩
  · rw [h] at length
    exact ⟨rfl, length⟩
  · rw [h] at length
    obtain ⟨second, length'⟩ := hf b c' (Cursor.stored_of_length_eq stored length)
    exact ⟨second, length'.trans length⟩

/-- An access that asks first whether there is room. -/
theorem checked {access : Access} {n : Index} {k : Unit → IndexedM α}
    (goes : ∀ c : Cursor, c.indexed.Stored → n.toNat ≤ c.remaining →
      (k ()).on c.indexed = .ok ((y.on c).1.map r, (y.on c).2.indexed) ∧
        (y.on c).2.length = c.length)
    (stops : ∀ c : Cursor, c.remaining < n.toNat →
      y.on c = (.error (c.shortage access n.toNat), c)) :
    Follows (check access n >>= k) r y := by
  intro c stored
  rw [IndexedM.on_bind, on_check stored (Cursor.inside_indexed stored)]
  by_cases room : n.toNat ≤ c.remaining
  · rw [if_pos ((Cursor.room_indexed stored).mpr room)]
    exact goes c stored room
  · rw [if_neg (mt (Cursor.room_indexed stored).mp room), stops c (Nat.lt_of_not_le room),
      Cursor.left_indexed stored, Cursor.toNat_offset_indexed stored]
    exact ⟨rfl, rfl⟩

theorem peek (n : Index) : Follows (IndexedM.peek n) Subtype.val (CursorM.peek n.toNat) := by
  refine checked ?_ fun _ => on_peek_of_lt
  intro c stored room
  rw [on_peek_of_le room, IndexedM.on_bind, IndexedM.offset, on_look]
  refine ⟨(on_slice stored ((Cursor.room_indexed stored).mpr room)).trans ?_, rfl⟩
  rw [Cursor.toNat_offset_indexed stored, Cursor.between_indexed]
  rfl

theorem read (n : Index) : Follows (IndexedM.read n) Subtype.val (CursorM.read n.toNat) := by
  refine checked ?_ fun _ => on_read_of_lt
  intro c stored room
  have place : c.indexed.offset.toNat + n.toNat ≤ (c.advance n.toNat).indexed.buffer.length := by
    rw [Cursor.buffer_indexed, Cursor.buffer_advance]
    exact (Cursor.room_indexed stored).mpr room
  rw [on_read_of_le room, IndexedM.on_bind, IndexedM.offset, on_look]
  show (forward n >>= fun _ => slice c.indexed.offset n).on c.indexed = _ ∧ _
  rw [IndexedM.on_bind, on_forward_indexed stored room]
  refine ⟨(on_slice (Cursor.stored_advance stored _) place).trans ?_, Cursor.length_advance _ _⟩
  rw [Cursor.toNat_offset_indexed stored, Cursor.between_advance]
  rfl

theorem skip (n : Index) : Follows (IndexedM.skip n) id (CursorM.skip n.toNat) := by
  refine checked ?_ fun _ => on_skip_of_lt
  intro c stored room
  rw [on_skip_of_le room]
  exact ⟨on_forward_indexed stored room, Cursor.length_advance _ _⟩

theorem readRest : Follows IndexedM.readRest id CursorM.readRest := by
  intro c stored
  have stop : c.indexed.length = UInt64.ofNat (c.offset + c.remaining) := by
    rw [IndexedCursor.length, Cursor.indexed, Cursor.length_buffer]
    rfl
  have moved : (⟨c.buffer, c.indexed.length⟩ : IndexedCursor) =
      (c.advance c.remaining).indexed := by
    rw [stop, Cursor.indexed, Cursor.buffer_advance, Cursor.offset_advance le_rfl]
  rw [on_readRest, IndexedM.readRest, IndexedM.on_bind, IndexedM.offset, on_look]
  show ((change fun c => .ok { c with offset := c.length }) >>= fun _ =>
    look fun d => d.slice c.indexed.offset d.length).on c.indexed = _ ∧ _
  rw [IndexedM.on_bind, on_change]
  show (look fun d => d.slice c.indexed.offset d.length).on ⟨c.buffer, c.indexed.length⟩ = _ ∧ _
  have stored' := Cursor.stored_advance stored c.remaining
  have size : (c.advance c.remaining).indexed.buffer.length = c.offset + c.remaining := by
    rw [Cursor.buffer_indexed, Cursor.length_buffer, Cursor.length_advance, Cursor.length]
  rw [moved, on_look, stored'.slice_eq_ok, Cursor.toNat_offset_indexed stored, stored'.toNat_length,
    size, Cursor.between_advance, Cursor.remaining, List.take_length]
  · exact ⟨rfl, Cursor.length_advance _ _⟩
  · rw [Cursor.toNat_offset_indexed stored, stored'.toNat_length, size]
    exact Nat.le_add_right _ _
  · exact stored'.toNat_length.le

/-- Bytes that were read suffice for what is computed from them. -/
theorem computed {n : Index} {f : Bytes → Except Fault α} {s : Octets n.toNat → α}
    (goes : ∀ bs : Octets n.toNat, f bs.val = .ok (s bs)) :
    Follows (IndexedM.read n >>= fun bs => look fun _ => f bs) s (CursorM.read n.toNat) := by
  have result (bs : Octets n.toNat) : Follows (look fun _ => f bs.val) s (Pure.pure bs) := by
    intro c _
    rw [on_look, goes bs]
    exact ⟨rfl, rfl⟩
  have both : Follows (IndexedM.read n >>= fun bs => look fun _ => f bs) s
      (CursorM.read n.toNat >>= Pure.pure) := (read n).bind result
  rwa [bind_pure] at both

theorem readNumber (n : Index) :
    Follows (IndexedM.readNumber n) (fun bs => bs.val.value) (CursorM.read n.toNat) := by
  refine computed fun bs => ?_
  rw [if_pos bs.property.ge, List.take_of_length_le bs.property.le]

theorem readArray (n : Index) : Follows (IndexedM.readArray n) id (CursorM.read n.toNat) :=
  computed fun bs => dif_pos bs.property

theorem readU8 : Follows IndexedM.readU8 id CursorM.readU8 :=
  (readNumber 1).bind fun bs => pure (r := id) (UInt8.ofNat bs.val.value)

theorem readU16 : Follows IndexedM.readU16 id CursorM.readU16 :=
  (readNumber 2).bind fun bs => pure (r := id) (UInt16.ofNat bs.val.value)

theorem readU32 : Follows IndexedM.readU32 id CursorM.readU32 :=
  (readNumber 4).bind fun bs => pure (r := id) (UInt32.ofNat bs.val.value)

/-- An access that puts `n` bytes where there is room. -/
theorem overwrite {n : Index} {bs : Bytes} (size : bs.length = n.toNat) :
    Follows (do
      check .write n
      replace (← IndexedM.offset) n bs
      forward n) id (CursorM.write bs) := by
  refine checked ?_ ?_
  · intro c stored room
    have place := (Cursor.room_indexed stored).mpr room
    have puts := Cursor.puts_overwrite (size.trans_le room)
    have stored' : (⟨(c.overwrite bs).buffer, c.indexed.offset⟩ : IndexedCursor).Stored :=
      Cursor.stored_of_length_eq stored puts.length_eq
    have place' : c.indexed.offset.toNat + n.toNat ≤ (c.overwrite bs).buffer.length := by
      rw [Cursor.length_buffer, puts.length_eq, ← Cursor.length_buffer]
      exact place
    have moved : (⟨(c.overwrite bs).buffer, UInt64.ofNat (c.indexed.offset.toNat + n.toNat)⟩ :
        IndexedCursor) = (c.overwrite bs).indexed := by
      rw [Cursor.toNat_offset_indexed stored, ← size, ← puts.offset_eq]
      rfl
    rw [on_write_of_le (size.trans_le room), IndexedM.on_bind, IndexedM.offset, on_look]
    show (replace c.indexed.offset n bs >>= fun _ => forward n).on c.indexed = _ ∧ _
    rw [IndexedM.on_bind, on_replace stored place size, Cursor.buffer_indexed]
    refine ⟨?_, puts.length_eq⟩
    rw [← size, Cursor.toNat_offset_indexed stored, ← Cursor.buffer_overwrite]
    refine (on_forward stored' place').trans ?_
    rw [moved]
    rfl
  · intro c few
    rw [on_write_of_lt (few.trans_eq size.symm), size]

theorem write (bytes : Buffer) : Follows (IndexedM.write bytes) id (CursorM.write bytes.val) :=
  overwrite (Index.toNat_ofNat bytes.property).symm

theorem writeZeros (n : Index) :
    Follows (IndexedM.writeZeros n) id (CursorM.writeZeros n.toNat) := by
  rw [writeZeros_eq]
  exact overwrite List.length_replicate

theorem offset_bind {f : Index → IndexedM γ} {g : Nat → CursorM δ} {s : δ → γ}
    (hf : ∀ c : Cursor, c.indexed.Stored → Follows (f c.indexed.offset) s (g c.offset)) :
    Follows (IndexedM.offset >>= f) s (CursorM.offset >>= g) := by
  intro c stored
  rw [IndexedM.on_bind, IndexedM.offset, on_look]
  exact hf c stored c stored

theorem reserve : Follows (return .position (← IndexedM.reserve).toNat) id
    (return CursorOp.Answer.position (← CursorM.reserve)) := by
  simp only [IndexedM.reserve, CursorM.reserve, bind_assoc, pure_bind]
  refine offset_bind fun c stored => ?_
  rw [Cursor.toNat_offset_indexed stored]
  exact (write _).bind fun _ => pure (r := id) _

theorem patch (position : Index) (n : UInt16) :
    Follows (IndexedM.patch position n) id (CursorM.patch position.toNat n) := by
  intro c stored
  have small := c.offset_le_length.trans_lt (Cursor.stored_indexed.mp stored)
  have two : (2 : Index).toNat = 2 := rfl
  -- where the sum is none, the last position is refused in its place: no buffer reaches it
  have beyond : c.indexed.offset < Index.sumSaturating position 2 ↔
      c.offset < position.toNat + 2 := by
    rw [UInt64.lt_iff_toNat_lt, Index.toNat_sumSaturating, Cursor.toNat_offset_indexed stored, two]
    omega
  rw [IndexedM.patch, IndexedM.on_bind, IndexedM.offset, on_look]
  simp only [Except.map, beyond, Index.toNat_differenceSaturating,
    Cursor.toNat_offset_indexed stored]
  by_cases passed : position.toNat + 2 ≤ c.offset
  · obtain ⟨c', patched, offset, length, buffer⟩ := on_patch_of_le n passed
    have inside : position.toNat + (2 : Index).toNat ≤ c.indexed.buffer.length := by
      rw [Cursor.buffer_indexed, Cursor.length_buffer, two]
      exact passed.trans c.offset_le_length
    rw [if_neg (Nat.not_lt_of_le passed), patched]
    refine ⟨(on_replace stored inside (Bytes.length_ofUInt16 n)).trans ?_, length⟩
    rw [two, Cursor.indexed, ← buffer]
    simp only [Cursor.indexed, offset]
  · have ahead := Nat.lt_of_not_le passed
    rw [if_pos ahead, on_patch_of_lt n ahead]
    exact ⟨rfl, rfl⟩

end Follows

end IndexedM

/-! ## Operations -/

namespace CursorOp

open IndexedM

theorem follows (op : CursorOp) : Follows op.step id op.act := by
  cases op with
  | peek n => exact (Follows.peek n).bind fun _ => .pure (r := id) _
  | read n => exact (Follows.read n).bind fun _ => .pure (r := id) _
  | skip n => exact (Follows.skip n).bind fun _ => .pure (r := id) _
  | take n =>
      rw [step, act, IndexedM.take, bind_assoc]
      exact (Follows.read n).bind fun bs => .pure (r := id) _
  | readRest => exact Follows.readRest.bind fun _ => .pure (r := id) _
  | readU8 => exact Follows.readU8.bind fun _ => .pure (r := id) _
  | readU16 => exact Follows.readU16.bind fun _ => .pure (r := id) _
  | readU32 => exact Follows.readU32.bind fun _ => .pure (r := id) _
  | readArray n => exact (Follows.readArray n).bind fun _ => .pure (r := id) _
  | write bytes => exact (Follows.write bytes).bind fun _ => .pure (r := id) _
  | writeU8 n => exact (Follows.write _).bind fun _ => .pure (r := id) _
  | writeU16 n => exact (Follows.write _).bind fun _ => .pure (r := id) _
  | writeU32 n => exact (Follows.write _).bind fun _ => .pure (r := id) _
  | writeZeros n => exact (Follows.writeZeros n).bind fun _ => .pure (r := id) _
  | reserve => exact Follows.reserve
  | patch position n => exact (Follows.patch position n).bind fun _ => .pure (r := id) _

end CursorOp

end Socks6
