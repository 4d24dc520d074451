/-
# Socks6.Proofs.Shortage — writing into a buffer that is too short

A single write is all or nothing, so a writer that runs out of room stops between
two writes: what it has put by then is a beginning of what it was to put, and
behind that the buffer is as it was.  `CursorM.RunsOut act bs` says this for every
buffer without room for `bs`, and says which write was refused.  Sequences inherit
it, wherever the room ends.

For a set `bs` is not what is written for it.  The length of the records is filled
in last, so a set that runs out of room leaves the two zeros that were reserved
(`OptionSet.unpatched`).  A set that is too long for its length does not get as far:
it is refused before anything is written.
-/
import Socks6.Proofs.RoundTrip

namespace Socks6

open CursorM

namespace CursorM

variable {α β : Type} {x : CursorM α} {f : α → CursorM β} {as bs : Bytes}

/-- Where there is no room for `bs`, the action stops at a write that is refused,
behind a beginning of `bs`. -/
def RunsOut (act : CursorM α) (bs : Bytes) : Prop :=
  ∀ c : Cursor, c.rest.length < bs.length → ∃ part need c',
    part <+: bs ∧ c.Puts part c' ∧ c'.remaining < need ∧
      act.on c = (.error (c'.shortage .write need), c')

namespace RunsOut

theorem nothing (act : CursorM α) : RunsOut act [] := by
  intro c few
  exact absurd few (Nat.not_lt_zero _)

theorem write (bs : Bytes) : RunsOut (write bs) bs := by
  intro c few
  exact ⟨[], bs.length, c, List.nil_prefix, Cursor.puts_nil.mpr rfl, few, on_write_of_lt few⟩

/-- The room ends in the first part, or there was enough for it and what is left
ends in the second. -/
theorem bind (hx : RunsOut x as)
    (goes : ∀ c c' : Cursor, c.Puts as c' → ∃ a, x.on c = (.ok a, c'))
    (hf : ∀ a, RunsOut (f a) bs) : RunsOut (x >>= f) (as ++ bs) := by
  intro c few
  by_cases room : as.length ≤ c.rest.length
  · obtain ⟨c₁, puts⟩ := Cursor.exists_puts room
    obtain ⟨a, went⟩ := goes c c₁ puts
    have few' : c₁.rest.length < bs.length := by
      obtain ⟨-, left, -⟩ := puts
      rw [left, List.length_drop]
      rw [List.length_append] at few
      omega
    obtain ⟨part, need, c', start, puts', short, stopped⟩ := hf a c₁ few'
    refine ⟨as ++ part, need, c', (List.prefix_append_right_inj as).mpr start,
      Cursor.puts_append.mpr ⟨c₁, puts, puts'⟩, short, ?_⟩
    rw [on_bind_of_ok went, stopped]
  · obtain ⟨part, need, c', start, puts, short, stopped⟩ := hx c (Nat.lt_of_not_le room)
    exact ⟨part, need, c', start.trans (List.prefix_append as bs), puts, short,
      on_bind_of_error stopped⟩

theorem andThen {x : CursorM Unit} {y : CursorM β} {p : Prop} (hx : RunsOut x as)
    (writes : Writes x p as) (able : p) (hy : RunsOut y bs) :
    RunsOut (x >>= fun _ => y) (as ++ bs) := by
  refine hx.bind (fun c c' puts => ?_) fun _ => hy
  exact ⟨(), (writes c c').mpr ⟨able, puts⟩⟩

theorem behind (as : Bytes) {y : CursorM β} (hy : RunsOut y bs) :
    RunsOut (CursorM.write as >>= fun _ => y) (as ++ bs) :=
  (write as).andThen (.write as) trivial hy

theorem offset {f : Nat → CursorM β} (hf : ∀ n, RunsOut (f n) bs) :
    RunsOut (offset >>= f) bs := by
  refine (nothing CursorM.offset).bind (fun c c' puts => ?_) hf
  rw [Cursor.puts_nil.mp puts]
  exact ⟨c'.offset, rfl⟩

theorem reserve : RunsOut reserve [0, 0] :=
  offset fun _ => behind [0, 0] (nothing _)

theorem forM {act : β → CursorM PUnit} {p : β → Prop} {bytes : β → Bytes}
    (each : ∀ b, p b → RunsOut (act b) (bytes b)) (writes : ∀ b, Writes (act b) (p b) (bytes b))
    {l : List β} (able : ∀ b ∈ l, p b) : RunsOut (l.forM act) (l.flatMap bytes) := by
  induction l with
  | nil => exact nothing _
  | cons b l ih =>
      obtain ⟨first, others⟩ := List.forall_mem_cons.mp able
      exact (each b first).andThen (writes b) first (ih others)

theorem writeAll (pieces : List Bytes) : RunsOut (writeAll pieces) pieces.flatten := by
  rw [← List.flatMap_id]
  exact forM (fun piece _ => write piece) Writes.write fun _ _ => trivial

end RunsOut

end CursorM

/-! ## Heads -/

theorem Address.runsOut {a : Address} (proper : a.Proper) : RunsOut a.write a.bytes := by
  refine .behind _ ?_
  cases a with
  | ipv4 octets => exact .write _
  | ipv6 octets => exact .write _
  | domain name =>
      have named : name.checkName "domain" = .ok () := proper
      show RunsOut (CursorM.ofExcept (name.checkName "domain") >>= fun _ => name.write) _
      rw [named]
      exact RunsOut.writeAll name.pieces

theorem Head.runsOut {h : Head} (proper : h.Proper) : RunsOut h.write h.bytes := by
  refine RunsOut.andThen (.writeAll _) Version.writes trivial ?_
  cases h with
  | request code port address => exact .behind _ (.behind _ (Address.runsOut proper))
  | authReply code method => exact .behind _ (.write _)
  | operationReply code initialDataOffset port address =>
      exact .behind _ (.behind _ (.behind _ (Address.runsOut proper)))

/-! ## Records and sets -/

theorem Frame.runsOut {f : Frame} (fits : f.size ≤ maxBlock) : RunsOut f.write f.bytes := by
  rw [Frame.write, if_neg (Nat.not_lt_of_le fits), ← pieces_flatten]
  exact .writeAll _

theorem OptionRecord.runsOut {o : OptionRecord} (fits : o.size ≤ Frame.maxBlock) :
    RunsOut o.write o.frame.bytes := by
  rcases raw : o.isRaw
  · rw [write_of_interpreted raw, if_neg (Nat.not_lt_of_le fits), bytes_frame_of_interpreted raw]
    refine RunsOut.andThen (.writeAll _) (.writeAll _) trivial ?_
    rw [Alignment.write, writeZeros_eq]
    exact .write _
  · cases o with
    | raw f => exact Frame.runsOut fits
    | _ => cases raw

namespace OptionSet

variable {s : OptionSet}

/-- What stands in the buffer before the length of the records is filled in. -/
def unpatched (s : OptionSet) : Bytes := [0, 0] ++ s.block

theorem length_unpatched (s : OptionSet) : s.unpatched.length = s.size := by
  rw [unpatched, List.length_append, length_block]
  rfl

theorem runsOut (fits : s.recordsSize ≤ Frame.maxBlock) : RunsOut s.write s.unpatched := by
  have each : ∀ o ∈ s.records, o.size ≤ Frame.maxBlock := fun _ => size_le_maxBlock fits
  have records : RunsOut (s.records.forM OptionRecord.write) s.block :=
    .forM (fun _ => OptionRecord.runsOut) OptionRecord.writes each
  rw [OptionSet.write, if_neg (Nat.not_lt_of_le fits), unpatched]
  refine RunsOut.reserve.bind (fun c c' puts => ?_) fun position => .offset fun start => ?_
  · exact ⟨c.offset, on_reserve_eq_ok.mpr ⟨rfl, puts⟩⟩
  -- nothing is put behind the records, so only they can run out of room
  · rw [← List.append_nil s.block]
    exact records.andThen (writes_records s.records) each (.nothing _)

end OptionSet

/-! ## Messages -/

namespace Message

variable {m : Message} {e : Bytes}

theorem runsOut (proper : m.head.Proper) (fits : m.options.recordsSize ≤ Frame.maxBlock) :
    RunsOut m.write (m.head.bytes ++ m.options.unpatched) :=
  (Head.runsOut proper).andThen m.head.writes proper (OptionSet.runsOut fits)

theorem head_append_unpatched (encoded : m.encode = .ok e) :
    e.take m.head.size ++ [0, 0] ++ e.drop (m.head.size + 2) =
      m.head.bytes ++ m.options.unpatched := by
  obtain ⟨-, rfl⟩ := encode_eq_ok.mp encoded
  rw [← List.drop_drop, bytes, List.take_left' m.head.length_bytes,
    List.drop_left' m.head.length_bytes, OptionSet.bytes,
    List.drop_left' (Bytes.length_ofUInt16 _), List.append_assoc]
  rfl

/-- A message that can be written, but not into so short a buffer, fails at a write
that has no room.  Until then it has put the first bytes of the message, though with
zeros for the length of the options, and the buffer goes on as before.  A set whose
records are too long for their length is refused where the cursor stands, and the
buffer is as it was. -/
theorem fill_short (m : Message) (buffer : Bytes) :
    (∀ e, m.encode = .ok e → buffer.length < m.size →
      ∃ need k, k ≤ buffer.length ∧ buffer.length < k + need ∧
        m.fill buffer = (.error (.truncated need (buffer.length - k) (.cursor .write k)),
          (e.take m.head.size ++ [0, 0] ++ e.drop (m.head.size + 2)).take k ++ buffer.drop k)) ∧
    ∀ (s : OptionSet) (c : Cursor),
      let total := (s.records.map OptionRecord.size).sum
      65535 < total →
        s.write.on c =
          (.error (.invalidField "options length" (.blockTooLong total 65535)), c) := by
  constructor
  · intro e encoded short
    obtain ⟨proper, fits⟩ := (encode_eq_ok.mp encoded).1
    have few : (Cursor.ofBytes buffer).rest.length <
        (m.head.bytes ++ m.options.unpatched).length := by
      rw [List.length_append, Head.length_bytes, OptionSet.length_unpatched]
      exact short
    obtain ⟨part, need, c, start, puts, refused, stopped⟩ := runsOut proper fits _ few
    have left : c.remaining = buffer.length - part.length := by
      rw [Cursor.remaining, puts.2.1, List.length_drop]
      rfl
    refine ⟨need, part.length, puts.1, ?_, ?_⟩
    · rw [left] at refused
      omega
    · have failed : m.fill buffer = (.error (c.shortage .write need), c.buffer) := by
        rw [fill, stopped]
      rw [failed, Cursor.shortage, puts.offset_ofBytes, left, puts.buffer_ofBytes,
        head_append_unpatched encoded, ← List.prefix_iff_eq_take.mp start]
  · intro s c total long
    have sum : s.recordsSize = total := s.recordsSize_eq_sum
    rw [← sum] at long ⊢
    exact OptionSet.on_write_of_long long c

/-- A request with a setting, in a buffer of ones that ends within its options; and a set
of two frames that together are one byte too long. -/
theorem fill_short_within_options :
    let m : Message :=
      .request .connect (.domain ⟨[97, 46, 98], by decide⟩) 80
        ((OptionSet.empty .request).attempt (.tos .both 7)).2
    let buffer : Bytes := List.replicate 15 255
    let frame : Frame := ⟨0x7abc, List.replicate 32764 0⟩
    let s : OptionSet := { OptionSet.empty .request with raw := [frame, frame] }
    (∃ need k, k ≤ 15 ∧ 15 < k + need ∧
      m.fill buffer = (.error (.truncated need (15 - k) (.cursor .write k)),
        [6, 1, 1, 0, 80, 3, 3, 97, 46, 98, 0, 0, 0, 1, 0, 8, 3, 1, 1, 7].take k ++
          buffer.drop k)) ∧
    s.write.on ⟨#[1, 2], [3]⟩ =
      (.error (.invalidField "options length" (.blockTooLong 65536 65535)), ⟨#[1, 2], [3]⟩) := by
  intro m buffer frame s
  obtain ⟨stops, refuses⟩ := fill_short m buffer
  have encoded : m.encode =
      .ok [6, 1, 1, 0, 80, 3, 3, 97, 46, 98, 0, 8, 0, 1, 0, 8, 3, 1, 1, 7] :=
    encode_eq_ok.mpr ⟨⟨by rfl, by decide⟩, by decide⟩
  have short : buffer.length < m.size := by decide
  -- the bodies are better not computed
  have records : s.records = (OptionSet.empty .request).records ++ [.raw frame, .raw frame] := by
    simp [s, OptionSet.records, OptionSet.empty]
  have size : OptionRecord.size (.raw frame) = 32768 := by
    rw [OptionRecord.size, Frame.size, List.length_replicate]
    rfl
  have total : (s.records.map OptionRecord.size).sum = 65536 := by
    rw [records, OptionSet.records_empty]
    simp [size]
  have refused := refuses s ⟨#[1, 2], [3]⟩
  rw [total] at refused
  exact ⟨stops _ encoded short, refused (by decide)⟩

/-- One byte is left behind the head, and the length of the options takes two. -/
example : (newRequest .connect .unspecified 80).fill (List.replicate 11 255) =
    (.error (.truncated 2 1 (.cursor .write 10)), [6, 1, 1, 0, 80, 1, 0, 0, 0, 0, 255]) := by
  rfl

end Message

end Socks6
