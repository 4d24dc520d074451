/-
# Socks6.Proofs.Exactness — the bytes of one record, no more and no fewer

A record stands in its place exactly.  Written, it takes as many bytes as it says
of itself: kind and length first, then the body, then zeros; and the bytes behind
the header are interpreted as the option again (`OptionRecord.write_exact`).

Read, a body need not have been written by anyone here.  Where the option says
itself where it ends, its bytes are those the option would be written as, so what
follows them is padding, whatever it holds (`Frame.interpret_exact`).  And none
of them can be missing: the readers of these bodies are `Streaming`, so a body
that was cut is known to be cut, and never passes for one of unknown content,
which would be forwarded as it is.
-/
import Socks6.Proofs.Incremental
import Socks6.Proofs.Record

namespace Socks6

open CursorM

/-! ## A record as it is written -/

namespace OptionRecord

variable {mode : Mode} {o : OptionRecord}

theorem eq_zero_of_mem_padding {b : UInt8} (h : b ∈ o.frame.body.drop o.bodySize) : b = 0 := by
  rcases raw : o.isRaw
  · rw [frame_of_interpreted raw, ← length_pieces, List.drop_left] at h
    exact List.eq_of_mem_replicate h
  · cases o with
    | raw f =>
        have none : f.body.drop f.body.length = [] := List.drop_length
        rw [frame, bodySize, none] at h
        cases h
    | _ => cases raw

/-- A record that can be read again is written exactly if its length can be said and
there is room for it.  Then its bytes are as many as it says and start with its kind
and its length; zeros fill them up; and those behind the header are interpreted as
the option, its methods in their order and as often as before. -/
theorem write_exact (readable : o.Readable mode) (c : Cursor) :
    ((∃ c', o.write.on c = (.ok (), c')) ↔ o.size ≤ Frame.maxBlock ∧ o.size ≤ c.remaining) ∧
    ∀ c', o.write.on c = (.ok (), c') →
      c'.offset = c.offset + o.size ∧
      ∃ bytes, c.Puts bytes c' ∧ bytes.length = o.size ∧
        Bytes.value (bytes.take 2) = o.kind.toNat ∧
        Bytes.value ((bytes.drop 2).take 2) = o.size ∧
        (∀ b ∈ bytes.drop (Frame.headerSize + o.bodySize), b = 0) ∧
        Frame.interpret mode ⟨o.kind, bytes.drop Frame.headerSize⟩ = .ok o := by
  have length : o.frame.bytes.length = o.size := by rw [Frame.length_bytes, size_frame]
  constructor
  · constructor
    · intro taken
      obtain ⟨c', done⟩ := taken
      obtain ⟨fits, room, -⟩ := (o.writes c c').mp done
      exact ⟨fits, length ▸ room⟩
    · intro possible
      obtain ⟨fits, room⟩ := possible
      have space : o.frame.bytes.length ≤ c.rest.length := length ▸ room
      obtain ⟨c', puts⟩ := Cursor.exists_puts space
      exact ⟨c', (o.writes c c').mpr ⟨fits, puts⟩⟩
  · intro c' done
    obtain ⟨fits, puts⟩ := (o.writes c c').mp done
    have kind : Bytes.value (o.frame.bytes.take 2) = o.kind.toNat := by
      rw [Frame.value_kind_bytes, kind_frame]
    have declared : Bytes.value ((o.frame.bytes.drop 2).take 2) = o.size := by
      rw [Frame.value_size_bytes (o.size_frame ▸ fits), size_frame]
    have read : Frame.interpret mode ⟨o.kind, o.frame.bytes.drop Frame.headerSize⟩ = .ok o := by
      rw [Frame.drop_bytes, ← kind_frame]
      exact interpret_frame readable
    refine ⟨length ▸ puts.offset_eq, o.frame.bytes, puts, length, kind, declared, ?_, read⟩
    intro b behind
    rw [← List.drop_drop, Frame.drop_bytes] at behind
    exact eq_zero_of_mem_padding behind

/-- An offer that repeats a method, out of order, written behind one byte and in front
of another. -/
theorem write_exact_repeated :
    let o : OptionRecord := .advertisement ⟨300, [.usernamePassword, .gssapi, .usernamePassword]⟩
    let c : Cursor := ⟨#[6], List.replicate 13 255⟩
    ∃ c', o.write.on c = (.ok (), c') ∧ c'.offset = 13 ∧ c'.rest = [255] ∧
      ∃ bytes, c.Puts bytes c' ∧ Bytes.value ((bytes.drop 2).take 2) = 12 ∧
        Frame.interpret .request ⟨2, bytes.drop Frame.headerSize⟩ = .ok o := by
  intro o c
  have readable : o.Readable .request := ⟨by decide, by decide⟩
  have size : o.size = 12 := by decide
  obtain ⟨possible, written⟩ := write_exact readable c
  obtain ⟨c', done⟩ := possible.mpr (by decide)
  obtain ⟨stop, bytes, puts, length, -, declared, -, read⟩ := written c' done
  rw [size] at stop length declared
  have behind : c'.rest = [255] := by
    rw [puts.2.1, length]
    rfl
  exact ⟨c', done, stop, behind, bytes, puts, declared, read⟩

end OptionRecord

/-! ## Readers of bodies -/

theorem CursorM.Streaming.readU32 : Streaming readU32 := bind (read 4) fun _ => pure _

theorem StackProperty.streaming_readFlag : Streaming readFlag := by
  refine .bind .readU8 fun byte => ?_
  split
  · exact .pure _
  · split
    · exact .pure _
    · exact .throw _

theorem StackProperty.streaming_readValue (level : StackLevel) (code : UInt8) :
    Streaming (readValue level code) := by
  unfold readValue
  split
  · exact .bind .readU8 fun _ => .pure _
  · exact .bind .readU16 fun _ => .pure _
  · exact .bind streaming_readFlag fun _ => .pure _
  · exact .bind (.readCoded _) fun _ => .pure _
  · exact .bind .readU16 fun _ => .pure _
  · exact .pure _

theorem StackSetting.streaming_readBody : Streaming readBody := by
  refine .bind (.readCoded _) fun leg => .bind .readU8 fun level => ?_
  split
  · exact .pure _
  · refine .bind .readU8 fun code => ?_
    refine .bind (StackProperty.streaming_readValue _ code) fun found => ?_
    split
    · exact .pure _
    · exact .bind (.ofExcept _) fun _ => .pure _

theorem SessionSignal.streaming_readBody : Streaming readBody := by
  refine .bind .readU8 fun type => ?_
  split
  case h_3 =>
    -- an identifier is the only signal with more than its type
    exact .bind .readU8 fun length => .bind (.read _) fun _ => .bind (.ofExcept _) fun _ => .pure _
  all_goals exact .pure _

theorem TokenOption.streaming_readPayload (type : TokenOptionType) :
    Streaming (readPayload type) := by
  cases type with
  | windowRequest => exact .bind .readU32 fun _ => .pure _
  | window => exact .bind .readU32 fun _ => .bind .readU32 fun _ => .pure _
  | expenditure => exact .bind .readU32 fun _ => .pure _
  | expenditureReply => exact .bind (.readCoded _) fun _ => .pure _

theorem TokenOption.streaming_readBody : Streaming readBody := by
  refine .bind .readU8 fun type => ?_
  split
  · exact .pure _
  · exact .bind (streaming_readPayload _) fun _ => .bind (.ofExcept _) fun _ => .pure _

theorem AuthData.streaming_readBody (mode : Mode) : Streaming (readBody mode) := by
  refine .bind .readU8 fun method => ?_
  split
  · exact .pure _
  · cases mode with
    | request => exact .bind Credentials.streaming_read fun _ => .pure _
    | authReply => exact .bind Verdict.streaming_read fun _ => .pure _
    | operationReply => exact .throw _

/-- An advertisement is read to the end of its frame, so more bytes would be more
methods; no other reader looks behind what it takes. -/
theorem OptionRecord.streaming_readBody (mode : Mode) {kind : OptionKind}
    (other : kind ≠ .advertisement) : Streaming (readBody mode kind) := by
  cases kind with
  | stack => exact .bind StackSetting.streaming_readBody fun _ => .pure _
  | advertisement => exact absurd rfl other
  | authData => exact .bind (AuthData.streaming_readBody mode) fun _ => .pure _
  | session => exact .bind SessionSignal.streaming_readBody fun _ => .pure _
  | token => exact .bind TokenOption.streaming_readBody fun _ => .pure _

/-! ## A body as it is read -/

namespace Frame

variable {mode : Mode} {kind : UInt16} {body : Bytes} {o : OptionRecord}

/-- Where bytes of a body are missing, the frame is refused for it. -/
theorem interpret_of_ranShort {known : OptionKind}
    (short : RanShort ((OptionRecord.readBody mode known).onBytes body)) :
    ∃ e, Frame.interpret mode ⟨UInt16.ofNat (Coded.code known), body⟩ = .error e ∧
      e.isTruncated = true := by
  rcases answer : (OptionRecord.readBody mode known).onBytes body with e | found
  · rw [answer] at short
    exact ⟨e, by rw [interpret_kind, answer]; rfl, short⟩
  · rw [answer] at short
    exact short.elim

/-- No byte of an option that says where it ends can be left off. -/
theorem interpret_cut (ends : o.selfDelimiting = true) (readable : o.Readable mode) {n : Nat}
    (few : n < o.bodySize) :
    ∃ e, Frame.interpret mode ⟨o.kind, o.pieces.flatten.take n⟩ = .error e ∧
      e.isTruncated = true := by
  obtain ⟨known, other, number⟩ := OptionRecord.exists_kind ends
  let start : Cursor := .ofBytes o.pieces.flatten
  let stop : Cursor := ⟨o.pieces.flatten.toArray, []⟩
  have passed : start.Passes o.pieces.flatten stop :=
    ⟨(List.append_nil _).symm, (List.nil_append _).symm⟩
  have read := (OptionRecord.on_readBody_eq_ok ends).mpr ⟨number, readable, passed⟩
  have missing : n < stop.offset - start.offset := by
    rw [← o.length_pieces] at few
    exact few
  rw [number]
  refine interpret_of_ranShort ?_
  exact (OptionRecord.streaming_readBody mode other).incremental.waits start stop _ read n missing

/-- A body that is interpreted as an option that says where it ends starts with the
bytes of the option.  What follows them may be anything; without one of them the
body is refused as cut off, whatever else it might look like. -/
theorem interpret_exact (h : Frame.interpret mode ⟨kind, body⟩ = .ok o)
    (ends : o.selfDelimiting = true) :
    o.bodySize ≤ body.length ∧
    Writes (writeAll o.pieces) True (body.take o.bodySize) ∧
    (∀ behind, Frame.interpret mode ⟨kind, body.take o.bodySize ++ behind⟩ = .ok o) ∧
    ∀ n < o.bodySize, ∃ e, Frame.interpret mode ⟨kind, body.take n⟩ = .error e ∧
      e.isTruncated = true := by
  obtain ⟨rfl, readable, tail, rfl⟩ := (interpret_eq_ok ends).mp h
  have own : (o.pieces.flatten ++ tail).take o.bodySize = o.pieces.flatten :=
    List.take_left' o.length_pieces
  rw [own, List.length_append, o.length_pieces]
  refine ⟨Nat.le_add_right _ _, .writeAll o.pieces, fun behind => ?_, fun n few => ?_⟩
  · exact (interpret_eq_ok ends).mpr ⟨rfl, readable, behind, rfl⟩
  · rw [List.take_append_of_le_length (o.length_pieces ▸ few.le)]
    exact interpret_cut ends readable few

/-- Credentials in a request, with two bytes behind them that are no padding: all
six of their own bytes are needed, and the two may be replaced. -/
theorem interpret_exact_credentials :
    let d : OptionRecord := .authData (.credentials ⟨⟨[117], by decide⟩, ⟨[112], by decide⟩⟩)
    Frame.interpret .request ⟨3, [2, 1, 1, 117, 1, 112, 9, 9]⟩ = .ok d ∧
      Frame.interpret .request ⟨3, [2, 1, 1, 117, 1, 112, 0, 0]⟩ = .ok d ∧
      ∃ e, Frame.interpret .request ⟨3, [2, 1, 1, 117, 1]⟩ = .error e ∧ e.isTruncated = true := by
  intro d
  have read : Frame.interpret .request ⟨3, [2, 1, 1, 117, 1, 112, 9, 9]⟩ = .ok d := rfl
  obtain ⟨-, -, replaced, missing⟩ := interpret_exact read rfl
  exact ⟨read, replaced [0, 0], missing 5 (by decide)⟩

end Frame

end Socks6
