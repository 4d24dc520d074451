/-
# Socks6.Proofs.Safety — no run of operations leaves its buffer

A cursor can be asked for anything: for more bytes than there are, for a patch at any
position.  Here is what comes of it, at any time and whatever was done before.  The
position stays in the buffer and the buffer keeps its length; an operation does what
it is to do if the bytes are there, and else says how many are missing and does
nothing (`CursorOp.Safe`); and nothing is computed that is no position, no part of the
buffer used that is not there (`CursorOp.safe_run`).

An operation is all or nothing, `CursorOp.Outcome`, and so it is enough to say when
there is room and what has been done then.  This is read off the cursor that is cut in
two, where every part is a list, and holds of the buffer in one piece because the one
follows the other.
-/
import Socks6.Proofs.Indexing

namespace Socks6

open CursorM

/-! ## What an operation does -/

namespace IndexedCursor

open CursorOp (Answer)

/-- The next `n` bytes are answered and passed. -/
structure Read (c : IndexedCursor) (n : Nat) (a : Answer) (c' : IndexedCursor) : Prop where
  offset : c'.offset.toNat = c.offset.toNat + n
  buffer : c'.buffer = c.buffer
  answered : a.spelled = c.between c.offset.toNat c'.offset.toNat

/-- `bs` stand where the next bytes stood, and are passed. -/
structure Wrote (c : IndexedCursor) (bs : Bytes) (c' : IndexedCursor) : Prop where
  offset : c'.offset.toNat = c.offset.toNat + bs.length
  written : c'.between c.offset.toNat c'.offset.toNat = bs
  others : ∀ i, i < c.offset.toNat ∨ c'.offset.toNat ≤ i → c'.buffer[i]? = c.buffer[i]?

/-- The digits of `n` stand at a place that has been passed. -/
structure Patched (c : IndexedCursor) (position : Nat) (n : UInt16) (c' : IndexedCursor) : Prop
    where
  offset : c'.offset = c.offset
  passed : position + 2 ≤ c.offset.toNat
  written : c'.between position (position + 2) = Bytes.ofUInt16 n
  others : ∀ i, i ≠ position → i ≠ position + 1 → c'.buffer[i]? = c.buffer[i]?

end IndexedCursor

namespace CursorOp

variable {op : CursorOp} {c c' : IndexedCursor} {a : Answer}

/-- How many bytes an operation needs from the position on. -/
def demand : CursorOp → Nat
  | .peek n | .read n | .skip n | .take n | .readArray n | .writeZeros n => n.toNat
  | .write bytes => bytes.val.length
  | .readU8 | .writeU8 _ => 1
  | .readU16 | .writeU16 _ | .reserve => 2
  | .readU32 | .writeU32 _ => 4
  | .readRest | .patch _ _ => 0

/-- The bytes that an operation is about are there. -/
def Fits (c : IndexedCursor) : CursorOp → Prop
  | .patch position _ => position.toNat + 2 ≤ c.offset.toNat
  | op => c.offset.toNat + op.demand ≤ c.buffer.length

/-- What an operation has done that did not fail. -/
def Done (c : IndexedCursor) (a : Answer) (c' : IndexedCursor) : CursorOp → Prop
  | .peek n => c' = c ∧ a.spelled = c.between c.offset.toNat (c.offset.toNat + n.toNat)
  | .skip n => c'.offset.toNat = c.offset.toNat + n.toNat ∧ c'.buffer = c.buffer
  | .read n | .readArray n => c.Read n.toNat a c'
  | .take n => c.Read n.toNat a c' ∧ ∃ bs, a = .window (.ofBytes bs)
  | .readRest => c.Read (c.buffer.length - c.offset.toNat) a c'
  | .readU8 => c.Read 1 a c'
  | .readU16 => c.Read 2 a c'
  | .readU32 => c.Read 4 a c'
  | .write bytes => c.Wrote bytes.val c'
  | .writeU8 n => c.Wrote [n] c'
  | .writeU16 n => c.Wrote (Bytes.ofUInt16 n) c'
  | .writeU32 n => c.Wrote (Bytes.ofUInt32 n) c'
  | .writeZeros n => c.Wrote (List.replicate n.toNat 0) c'
  | .reserve => c.Wrote [0, 0] c' ∧ a = .position c.offset.toNat
  | .patch position n => c.Patched position.toNat n c'

/-- What may come of an operation on a cursor. -/
structure Safe (op : CursorOp) (c : IndexedCursor) (answer : Except Error Answer)
    (c' : IndexedCursor) : Prop where
  /-- The position lies in the buffer. -/
  inside : c'.offset.toNat ≤ c'.buffer.length
  /-- The buffer keeps its length. -/
  length : c'.buffer.length = c.buffer.length
  /-- From the position on, no byte has changed. -/
  ahead : ∀ i, c'.offset.toNat ≤ i → c'.buffer[i]? = c.buffer[i]?
  /-- It goes well exactly if the bytes are there. -/
  succeeds : (∃ a, answer = .ok a) ↔ op.Fits c
  /-- If it does, the operation has done what it is to do. -/
  done : ∀ a, answer = .ok a → op.Done c a c'
  /-- If not, bytes are missing, and everything is as it was. -/
  refused : ∀ e, answer = .error e →
    c' = c ∧ ∃ need available place, available < need ∧ e = .truncated need available place

theorem Done.ahead (h : op.Done c a c') {i : Nat} (behind : c'.offset.toNat ≤ i) :
    c'.buffer[i]? = c.buffer[i]? := by
  cases op with
  | peek n => rw [h.1]
  | skip n => rw [h.2]
  | read n | readRest | readU8 | readU16 | readU32 | readArray n => rw [h.buffer]
  | take n => rw [h.1.buffer]
  | write bytes | writeU8 n | writeU16 n | writeU32 n | writeZeros n =>
      exact h.others i (.inr behind)
  | reserve => exact h.1.others i (.inr behind)
  | patch position n =>
      have passed := h.passed
      rw [h.offset] at behind
      exact h.others i (by omega) (by omega)

end CursorOp

/-! ## What a cursor that is cut in two has done -/

namespace Bytes

variable {buffer bs : Bytes} {position : Nat}

theorem take_drop_replaced (inside : position + bs.length ≤ buffer.length) :
    ((buffer.take position ++ bs ++ buffer.drop (position + bs.length)).drop position).take
      bs.length = bs := by
  have before : (buffer.take position).length = position :=
    List.length_take_of_le (by omega)
  rw [List.append_assoc, List.drop_left' before, List.take_left]

theorem getElem?_replaced (inside : position + bs.length ≤ buffer.length) {i : Nat}
    (outside : i < position ∨ position + bs.length ≤ i) :
    (buffer.take position ++ bs ++ buffer.drop (position + bs.length))[i]? = buffer[i]? := by
  have before : (buffer.take position).length = position :=
    List.length_take_of_le (by omega)
  have replaced : (buffer.take position ++ bs).length = position + bs.length := by
    rw [List.length_append, before]
  rcases outside with below | behind
  · rw [List.append_assoc, List.getElem?_append_left (by omega), List.getElem?_take_of_lt below]
  · rw [List.getElem?_append_right (by omega), List.getElem?_drop, replaced,
      Nat.add_sub_cancel' behind]

end Bytes

namespace Cursor

variable {c c' : Cursor} {bs : Bytes} {a : CursorOp.Answer}

theorem Passes.read (h : c.Passes bs c') (stored : c.indexed.Stored) (spells : a.spelled = bs) :
    c.indexed.Read bs.length a c'.indexed := by
  have same : c'.indexed.buffer = c.indexed.buffer := h.buffer_eq
  have stored' : c'.indexed.Stored := by rwa [IndexedCursor.Stored, same]
  have offset : c'.indexed.offset.toNat = c.indexed.offset.toNat + bs.length := by
    rw [toNat_offset_indexed stored, toNat_offset_indexed stored', h.offset_eq]
  refine ⟨offset, same, ?_⟩
  rw [offset, toNat_offset_indexed stored, between_indexed, spells, h.1, List.take_left]

theorem toNat_offset_advance {n : Nat} (stored : c.indexed.Stored) (room : n ≤ c.remaining) :
    (c.advance n).indexed.offset.toNat = c.indexed.offset.toNat + n := by
  rw [toNat_offset_indexed stored, toNat_offset_indexed (stored_advance stored n),
    offset_advance room]

theorem wrote_overwrite (stored : c.indexed.Stored) (room : bs.length ≤ c.remaining) :
    c.indexed.Wrote bs (c.overwrite bs).indexed := by
  have puts := puts_overwrite room
  have inside := (room_indexed stored).mpr room
  have offset : (c.overwrite bs).indexed.offset.toNat = c.indexed.offset.toNat + bs.length := by
    rw [toNat_offset_indexed stored,
      toNat_offset_indexed (stored_of_length_eq stored puts.length_eq), puts.offset_eq]
  have buffer := c.buffer_overwrite bs
  rw [← toNat_offset_indexed stored] at buffer
  refine ⟨offset, ?_, ?_⟩
  · rw [IndexedCursor.between, offset, buffer_indexed, buffer, Nat.add_sub_cancel_left]
    exact Bytes.take_drop_replaced inside
  · intro i outside
    rw [offset] at outside
    rw [buffer_indexed, buffer]
    exact Bytes.getElem?_replaced inside outside

theorem patched {position : Nat} {n : UInt16} (stored : c.indexed.Stored)
    (passed : position + 2 ≤ c.offset) (offset : c'.offset = c.offset)
    (buffer : c'.buffer = c.buffer.take position ++ Bytes.ofUInt16 n ++
      c.buffer.drop (position + 2)) :
    c.indexed.Patched position n c'.indexed := by
  have two := Bytes.length_ofUInt16 n
  have inside : position + (Bytes.ofUInt16 n).length ≤ c.buffer.length := by
    rw [two, length_buffer]
    exact passed.trans c.offset_le_length
  rw [← two] at buffer
  refine ⟨congrArg UInt64.ofNat offset, by rwa [toNat_offset_indexed stored], ?_, ?_⟩
  · rw [IndexedCursor.between, buffer_indexed, buffer, Nat.add_sub_cancel_left, ← two]
    exact Bytes.take_drop_replaced inside
  · intro i notFirst notSecond
    rw [buffer_indexed, buffer]
    exact Bytes.getElem?_replaced inside (by omega)

end Cursor

namespace CursorOp

/-! ## All or nothing -/

/-- The operation has done what it is to do, or it had too few bytes and did nothing. -/
inductive Outcome (c : Cursor) (fits : Prop) (done : Answer → Cursor → Prop) :
    Except Error Answer × Cursor → Prop
  | all {a : Answer} {c' : Cursor} (room : fits) (h : done a c') : Outcome c fits done (.ok a, c')
  | nothing {need available : Nat} {place : Place} (few : ¬fits) (short : available < need) :
      Outcome c fits done (.error (.truncated need available place), c)

namespace Outcome

variable {c : Cursor} {fits : Prop} {done done' : Answer → Cursor → Prop}
  {result : Except Error Answer × Cursor}

theorem imp (h : Outcome c fits done result) (weaker : ∀ a c', done a c' → done' a c') :
    Outcome c fits done' result := by
  cases h with
  | all room h => exact .all room (weaker _ _ h)
  | nothing few short => exact .nothing few short

/-- An access that asks first whether there is room. -/
theorem of_room {n : Nat} {act : CursorM Answer} (access : Access) (stored : c.indexed.Stored)
    (goes : n ≤ c.remaining → ∃ a c', act.on c = (.ok a, c') ∧ done a c')
    (stops : c.remaining < n → act.on c = (.error (c.shortage access n), c)) :
    Outcome c (c.indexed.offset.toNat + n ≤ c.indexed.buffer.length) done (act.on c) := by
  rw [Cursor.room_indexed stored]
  by_cases room : n ≤ c.remaining
  · obtain ⟨a, c', went, h⟩ := goes room
    rw [went]
    exact .all room h
  · have few := Nat.lt_of_not_le room
    rw [stops few]
    exact .nothing room few

theorem read {w : Nat} (f : Octets w → Answer) (spells : ∀ bs, (f bs).spelled = bs.val)
    (stored : c.indexed.Stored) :
    Outcome c (c.indexed.offset.toNat + w ≤ c.indexed.buffer.length)
      (fun a c' => c.indexed.Read w a c'.indexed ∧ ∃ bs, a = f bs)
      ((do return f (← CursorM.read w)).on c) := by
  refine of_room .read stored ?_ fun few => on_bind_of_error (on_read_of_lt few)
  intro room
  have went := on_read_of_le room
  have passed := (on_read_eq_ok.mp went).read stored (spells _)
  refine ⟨_, c.advance w, on_bind_of_ok went, ?_, _, rfl⟩
  rwa [List.length_take_of_le room] at passed

theorem write (bs : Bytes) {n : Nat} (size : bs.length = n) (a : Answer)
    (stored : c.indexed.Stored) :
    Outcome c (c.indexed.offset.toNat + n ≤ c.indexed.buffer.length)
      (fun a' c' => c.indexed.Wrote bs c'.indexed ∧ a' = a)
      ((do CursorM.write bs; return a).on c) := by
  subst size
  refine of_room .write stored ?_ fun few => on_bind_of_error (on_write_of_lt few)
  intro room
  exact ⟨a, _, on_bind_of_ok (on_write_of_le room), Cursor.wrote_overwrite stored room, rfl⟩

end Outcome

/-- Every operation is all or nothing. -/
theorem outcome (op : CursorOp) {c : Cursor} (stored : c.indexed.Stored) :
    Outcome c (op.Fits c.indexed) (fun a c' => op.Done c.indexed a c'.indexed) (op.act.on c) := by
  cases op with
  | peek n =>
      refine .of_room (n := n.toNat) .peek stored ?_ fun few => on_bind_of_error (on_peek_of_lt few)
      intro room
      refine ⟨.bytes (c.rest.take n.toNat), c, on_bind_of_ok (on_peek_of_le room), rfl, ?_⟩
      rw [Cursor.toNat_offset_indexed stored, Cursor.between_indexed]
      rfl
  | skip n =>
      refine .of_room (n := n.toNat) .skip stored ?_ fun few => on_bind_of_error (on_skip_of_lt few)
      intro room
      exact ⟨.done, c.advance n.toNat, on_bind_of_ok (on_skip_of_le room),
        Cursor.toNat_offset_advance stored room, Cursor.buffer_advance _ _⟩
  | read n | readArray n =>
      exact (Outcome.read (fun bs => .bytes bs.val) (fun _ => rfl) stored).imp fun _ _ h => h.1
  | take n =>
      refine (Outcome.read (fun bs => .window (.ofBytes bs.val)) (fun _ => rfl) stored).imp ?_
      rintro a c' ⟨read, bs, rfl⟩
      exact ⟨read, _, rfl⟩
  | readRest =>
      refine .all (Cursor.inside_indexed stored) ?_
      have passed : c.Passes c.rest (c.advance c.remaining) := by
        have taken := c.passes_advance c.remaining
        rwa [Cursor.remaining, List.take_length] at taken
      rw [Done, Cursor.left_indexed stored]
      exact passed.read stored rfl
  | readU8 =>
      rw [act, CursorM.readU8]
      simp only [bind_assoc, pure_bind]
      refine (Outcome.read (w := 1) (fun bs => .u8 (UInt8.ofNat bs.val.value)) ?_ stored).imp
        fun _ _ h => h.1
      -- a byte is its own digit
      rintro ⟨bs, one⟩
      obtain ⟨b, rfl⟩ := List.length_eq_one_iff.mp one
      simp [Answer.spelled, Bytes.value]
  | readU16 =>
      rw [act, CursorM.readU16]
      simp only [bind_assoc, pure_bind]
      exact (Outcome.read (w := 2) (fun bs => .u16 (UInt16.ofNat bs.val.value))
        (fun bs => Bytes.ofUInt16_value bs.property) stored).imp fun _ _ h => h.1
  | readU32 =>
      rw [act, CursorM.readU32]
      simp only [bind_assoc, pure_bind]
      exact (Outcome.read (w := 4) (fun bs => .u32 (UInt32.ofNat bs.val.value))
        (fun bs => Bytes.ofUInt32_value bs.property) stored).imp fun _ _ h => h.1
  | write bytes => exact (Outcome.write _ rfl .done stored).imp fun _ _ h => h.1
  | writeU8 n => exact (Outcome.write [n] rfl .done stored).imp fun _ _ h => h.1
  | writeU16 n =>
      exact (Outcome.write _ (Bytes.length_ofUInt16 n) .done stored).imp fun _ _ h => h.1
  | writeU32 n =>
      exact (Outcome.write _ (Bytes.length_ofUInt32 n) .done stored).imp fun _ _ h => h.1
  | writeZeros n =>
      rw [act, writeZeros_eq]
      exact (Outcome.write _ List.length_replicate .done stored).imp fun _ _ h => h.1
  | reserve =>
      have written := Outcome.write (Bytes.ofUInt16 0) (Bytes.length_ofUInt16 0)
        (.position c.offset) stored
      rw [act, CursorM.reserve]
      simp only [bind_assoc, pure_bind]
      refine written.imp fun _ _ h => ⟨h.1, h.2.trans ?_⟩
      rw [Cursor.toNat_offset_indexed stored]
  | patch position n =>
      by_cases passed : position.toNat + 2 ≤ c.offset
      · obtain ⟨c', went, offset, -, buffer⟩ := on_patch_of_le n passed
        have room : position.toNat + 2 ≤ c.indexed.offset.toNat := by
          rwa [Cursor.toNat_offset_indexed stored]
        rw [act, on_bind_of_ok went]
        exact .all room (Cursor.patched stored passed offset buffer)
      · have ahead := Nat.lt_of_not_le passed
        rw [act, on_bind_of_error (on_patch_of_lt n ahead)]
        refine .nothing ?_ (by omega)
        rw [Fits, Cursor.toNat_offset_indexed stored]
        exact passed

/-! ## Runs -/

/-- The operation on a buffer in one piece goes as on the buffer that is cut in two. -/
theorem step_indexed (op : CursorOp) {c : Cursor} (stored : c.indexed.Stored) :
    op.step.on c.indexed = .ok ((op.act.on c).1, (op.act.on c).2.indexed) ∧
      (op.act.on c).2.length = c.length := by
  obtain ⟨went, length⟩ := op.follows c stored
  refine ⟨went.trans ?_, length⟩
  rcases (op.act.on c).1 <;> rfl

theorem safe (op : CursorOp) {c : Cursor} (stored : c.indexed.Stored) :
    op.Safe c.indexed (op.act.on c).1 (op.act.on c).2.indexed := by
  have length := (op.step_indexed stored).2
  have outcome := op.outcome stored
  rcases went : op.act.on c with ⟨answer, c'⟩
  rw [went] at outcome length
  have stored' := Cursor.stored_of_length_eq stored length
  have kept : c'.indexed.buffer.length = c.indexed.buffer.length := by
    rw [Cursor.buffer_indexed, Cursor.buffer_indexed, Cursor.length_buffer, Cursor.length_buffer,
      length]
  cases outcome with
  | @all a _ room h =>
      exact {
        inside := Cursor.inside_indexed stored'
        length := kept
        ahead := fun i behind => h.ahead behind
        succeeds := ⟨fun _ => room, fun _ => ⟨a, rfl⟩⟩
        done := by rintro _ ⟨⟩; exact h
        refused := by rintro _ ⟨⟩ }
  | nothing few short =>
      exact {
        inside := Cursor.inside_indexed stored
        length := rfl
        ahead := fun _ _ => rfl
        succeeds := ⟨by rintro ⟨_, ⟨⟩⟩, fun room => absurd room few⟩
        done := by rintro _ ⟨⟩
        refused := by rintro _ ⟨⟩; exact ⟨rfl, _, _, _, short, rfl⟩ }

/-- A run does not fault, and keeps the length of the buffer. -/
theorem run_indexed (ops : List CursorOp) {c : Cursor} (stored : c.indexed.Stored) :
    run ops c.indexed = .ok (after ops c).indexed ∧ (after ops c).length = c.length := by
  induction ops generalizing c with
  | nil => exact ⟨rfl, rfl⟩
  | cons op ops ih =>
      obtain ⟨went, length⟩ := op.step_indexed stored
      obtain ⟨ran, kept⟩ := ih (Cursor.stored_of_length_eq stored length)
      rw [run, went]
      exact ⟨ran, kept.trans length⟩

/-- A number is filled in, and for one more byte there is no room. -/
example : run [.reserve, .writeU8 0x7F, .writeZeros 1, .patch 0 0x1234, .writeU8 9]
    (.ofBytes [0xFF, 0xFF, 0xFF, 0xFF]) = .ok ⟨[0x12, 0x34, 0x7F, 0x00], 4⟩ := by
  rfl

/-- Whatever was done with a buffer before, each operation is safe.  That the run and the
step are `.ok` says that no sum and no difference of positions overflows, and that no part
of a buffer is used that is not there.  A cursor that was taken has a buffer of its own. -/
theorem safe_run (buffer : Buffer) (ops : List CursorOp) (op : CursorOp) :
    ∃ (c c' : Cursor) (answer : Except Error Answer),
      after ops (.ofBytes buffer.val) = c ∧ op.act.on c = (answer, c') ∧
      run ops (.ofBytes buffer.val) = .ok c.indexed ∧
      op.step.on c.indexed = .ok (answer, c'.indexed) ∧
      c.indexed.buffer.length = buffer.val.length ∧ op.Safe c.indexed answer c'.indexed := by
  have start := Cursor.indexed_ofBytes buffer.val
  have stored : (Cursor.ofBytes buffer.val).indexed.Stored := by
    rw [start]
    exact buffer.property
  obtain ⟨ran, kept⟩ := run_indexed ops stored
  have stored' := Cursor.stored_of_length_eq stored kept
  have length : (after ops (.ofBytes buffer.val)).indexed.buffer.length = buffer.val.length := by
    rw [Cursor.buffer_indexed, Cursor.length_buffer, kept, ← Cursor.length_buffer,
      Cursor.buffer_ofBytes]
  rw [start] at ran
  exact ⟨_, _, _, rfl, rfl, ran, (op.step_indexed stored').1, length, op.safe stored'⟩

/-- The last position of all is behind every buffer. -/
example : (patch (UInt64.ofNat (2 ^ 64 - 1)) 7).step.on (.ofBytes [1, 2]) =
    .ok (.error (.truncated 2 0 (.patch (2 ^ 64 - 1))), .ofBytes [1, 2]) := by
  rfl

end CursorOp

end Socks6
