/-
# Socks6.Proofs.Record — option records, on the wire and off it

A record is written as a frame: `OptionRecord.frame` is the frame, and what is
written for the record is what is written for its frame.  Reading goes the same
way back, from bytes to a frame and from the frame to an option, so a round trip
of records is one of frames followed by `Frame.interpret`.

A frame is interpreted as the option it was made of if that option is
`Readable`: its values are in range, its methods are canonical and none of them
is no-authentication (a zero byte is padding, never a method), its
authentication data is of the shape that the envelope carries, and if it is
raw, it is opaque there.
-/
import Socks6.OptionRecord
import Socks6.Proofs.Body

namespace Socks6

open CursorM

/-! ## Frames -/

namespace Frame

def bytes (f : Frame) : Bytes :=
  Bytes.ofUInt16 f.kind ++ (Bytes.ofUInt16 (UInt16.ofNat f.size) ++ f.body)

theorem length_bytes (f : Frame) : f.bytes.length = f.size := by
  simp [bytes, size, headerSize]
  omega

theorem value_kind_bytes (f : Frame) : Bytes.value (f.bytes.take 2) = f.kind.toNat := by
  rw [bytes, List.take_left' (Bytes.length_ofUInt16 _), Bytes.value_ofUInt16]

theorem value_size_bytes {f : Frame} (fits : f.size ≤ maxBlock) :
    Bytes.value ((f.bytes.drop 2).take 2) = f.size := by
  rw [bytes, List.drop_left' (Bytes.length_ofUInt16 _), List.take_left' (Bytes.length_ofUInt16 _),
    Bytes.value_ofUInt16]
  exact UInt16.toNat_ofNat_of_lt' (Nat.lt_succ_of_le fits)

theorem drop_bytes (f : Frame) : f.bytes.drop headerSize = f.body := by
  rw [bytes, ← List.append_assoc]
  exact List.drop_left' rfl

theorem size_le_of_mem {f : Frame} {fs : List Frame} (h : f ∈ fs) :
    f.size ≤ (fs.flatMap bytes).length := by
  rw [← length_bytes, List.flatMap_def]
  exact (List.sublist_flatten_of_mem (List.mem_map_of_mem h)).length_le

theorem pieces_flatten (f : Frame) :
    (header f.kind (UInt16.ofNat f.size) ++ [f.body]).flatten = f.bytes := by
  simp [header, bytes]

theorem writes (f : Frame) : Writes f.write (f.size ≤ maxBlock) f.bytes := by
  rw [← pieces_flatten]
  have pieces := Writes.writeAll (header f.kind (UInt16.ofNat f.size) ++ [f.body])
  refine (Writes.refuseIf (fun _ => pieces) (maxBlock < f.size) _).congr ?_
  rw [and_true, Nat.not_lt]

/-- Exactly the bytes of a frame that fits into its length field read as that frame. -/
theorem on_read_eq_ok {f : Frame} {c c' : Cursor} :
    Frame.read.on c = (.ok f, c') ↔ f.size ≤ maxBlock ∧ c.Passes f.bytes c' := by
  simp only [Frame.read, on_bind_eq_ok, CursorM.on_read_eq_ok]
  constructor
  · intro h
    obtain ⟨⟨bytes, four⟩, c₁, first, second⟩ := h
    have low : (bytes.drop 2).length = 2 := by rw [List.length_drop, four]; rfl
    have high : (bytes.take 2).length = 2 := by rw [List.length_take, four]; rfl
    have small := Bytes.value_lt (bytes.drop 2)
    rw [low] at small
    split at second
    · exact (on_throw_eq_ok.mp (on_bind_eq_ok.mp second).choose_spec.choose_spec.1).elim
    · rename_i short
      have long : headerSize ≤ Bytes.value (bytes.drop 2) := Nat.le_of_not_lt short
      simp only [on_bind_eq_ok, CursorM.on_read_eq_ok, on_pure_eq_ok] at second
      obtain ⟨body, _, passed, rfl, rfl⟩ := second
      have whole : Frame.size ⟨UInt16.ofNat (Bytes.value (bytes.take 2)), body.val⟩ =
          Bytes.value (bytes.drop 2) := by
        rw [size, body.property]
        exact Nat.add_sub_cancel' long
      refine ⟨by rw [whole, maxBlock]; omega, ?_⟩
      rw [Frame.bytes, whole, Bytes.ofUInt16_value low, Bytes.ofUInt16_value high,
        ← List.append_assoc, List.take_append_drop]
      exact Cursor.passes_append.mpr ⟨c₁, first, passed⟩
  · intro h
    obtain ⟨fits, passed⟩ := h
    rw [Frame.bytes, ← List.append_assoc] at passed
    obtain ⟨c₁, first, second⟩ := Cursor.passes_append.mp passed
    have length : (UInt16.ofNat f.size).toNat = f.size :=
      UInt16.toNat_ofNat_of_lt' (Nat.lt_succ_of_le fits)
    refine ⟨⟨_, by simp [headerSize]⟩, c₁, first, ?_⟩
    have kind : (Bytes.ofUInt16 f.kind ++ Bytes.ofUInt16 (UInt16.ofNat f.size)).take 2 =
        Bytes.ofUInt16 f.kind := List.take_left' (Bytes.length_ofUInt16 _)
    have digits : (Bytes.ofUInt16 f.kind ++ Bytes.ofUInt16 (UInt16.ofNat f.size)).drop 2 =
        Bytes.ofUInt16 (UInt16.ofNat f.size) := List.drop_left' (Bytes.length_ofUInt16 _)
    simp only [kind, digits, Bytes.value_ofUInt16, length]
    rw [if_neg (by simp [size])]
    simp only [on_bind_eq_ok, CursorM.on_read_eq_ok, on_pure_eq_ok]
    have body : f.body.length = f.size - headerSize := by
      rw [size, Nat.add_sub_cancel_left]
    exact ⟨⟨f.body, by rw [digits, Bytes.value_ofUInt16, length, body]⟩, c', second, by simp, rfl⟩

end Frame

/-! ## Options as frames -/

namespace OptionRecord

/-- The frame that an option is written as. -/
def frame : OptionRecord → Frame
  | .raw f => f
  | o => ⟨o.kind, o.pieces.flatten ++
      List.replicate (Alignment.gap o.bodySize Frame.headerSize) 0⟩

theorem frame_of_interpreted {o : OptionRecord} (h : o.isRaw = false) :
    o.frame = ⟨o.kind, o.pieces.flatten ++
      List.replicate (Alignment.gap o.bodySize Frame.headerSize) 0⟩ := by
  cases o with
  | raw f => cases h
  | _ => rfl

theorem size_of_interpreted {o : OptionRecord} (h : o.isRaw = false) :
    o.size = Frame.headerSize + Alignment.padded o.bodySize Frame.headerSize := by
  cases o with
  | raw f => cases h
  | _ => rfl

theorem write_of_interpreted {o : OptionRecord} (h : o.isRaw = false) :
    o.write = (do
      if Frame.maxBlock < o.size then throw (.invalidField o.name (.recordTooLong o.size))
      writeAll (Frame.header o.kind (UInt16.ofNat o.size) ++ o.pieces)
      Alignment.write o.bodySize Frame.headerSize) := by
  cases o with
  | raw f => cases h
  | _ => rfl

theorem length_pieces (o : OptionRecord) : o.pieces.flatten.length = o.bodySize := by
  cases o with
  | stack s => exact s.length_pieces
  | advertisement a => exact a.length_pieces
  | authData d => exact d.length_pieces
  | session s => exact s.length_pieces
  | token o => exact o.length_pieces
  | raw f => simp [pieces, bodySize]

theorem size_frame (o : OptionRecord) : o.frame.size = o.size := by
  rcases raw : o.isRaw
  · rw [frame_of_interpreted raw, size_of_interpreted raw, Frame.size, List.length_append,
      length_pieces, List.length_replicate]
    rfl
  · cases o with
    | raw f => rfl
    | _ => cases raw

theorem kind_frame (o : OptionRecord) : o.frame.kind = o.kind := by
  cases o <;> rfl

theorem bytes_frame_of_interpreted {o : OptionRecord} (h : o.isRaw = false) :
    o.frame.bytes = (Frame.header o.kind (UInt16.ofNat o.size) ++ o.pieces).flatten ++
      List.replicate (Alignment.gap o.bodySize Frame.headerSize) 0 := by
  rw [Frame.bytes, size_frame, frame_of_interpreted h]
  simp [Frame.header]

theorem writes (o : OptionRecord) : Writes o.write (o.size ≤ Frame.maxBlock) o.frame.bytes := by
  rcases raw : o.isRaw
  · rw [write_of_interpreted raw, bytes_frame_of_interpreted raw]
    have padded := Writes.andThen
      (.writeAll (Frame.header o.kind (UInt16.ofNat o.size) ++ o.pieces))
      (.writeZeros (Alignment.gap o.bodySize Frame.headerSize))
    refine (Writes.refuseIf (fun _ => padded) (Frame.maxBlock < o.size) _).congr ?_
    rw [and_true, Nat.not_lt]
  · cases o with
    | raw f => exact f.writes
    | _ => cases raw

/-- The option is found again in its frame. -/
def Readable (mode : Mode) : OptionRecord → Prop
  | .stack s => s.property.validate = .ok ()
  | .advertisement a => (∀ m ∈ a.methods, m.Canonical) ∧ .noAuth ∉ a.methods
  | .authData d => d.envelope = mode
  | .session _ => True
  | .token o => o.validate = .ok ()
  | .raw f => f.interpret mode = .ok (.raw f)

end OptionRecord

/-! ## Reading a body -/

theorem CursorM.onBytes_of_passes {α : Type} {act : CursorM α} {a : α} {bs behind : Bytes}
    (h : act.on (.ofBytes (bs ++ behind)) = (.ok a, ⟨bs.toArray, behind⟩)) :
    act.onBytes (bs ++ behind) = .ok a := by
  rw [onBytes, h]

theorem CursorM.exists_on_of_onBytes {α : Type} {act : CursorM α} {bs : Bytes} {a : α}
    (h : act.onBytes bs = .ok a) : ∃ c, act.on (.ofBytes bs) = (.ok a, c) := by
  rcases eq : act.on (.ofBytes bs) with ⟨r, c⟩
  rw [onBytes, eq] at h
  exact ⟨c, congrArg (·, c) h⟩

namespace OptionKind

theorem ofCode?_code (kind : OptionKind) :
    Coded.ofCode? OptionKind (UInt16.ofNat (Coded.code kind)).toNat = some kind := by
  cases kind <;> rfl

theorem code_inj {kind kind' : OptionKind}
    (h : UInt16.ofNat (Coded.code kind) = UInt16.ofNat (Coded.code kind')) : kind = kind' := by
  have known := ofCode?_code kind
  rw [h, ofCode?_code] at known
  exact (Option.some.inj known).symm

end OptionKind

namespace OptionRecord

theorem exists_of_map {α : Type} {x : CursorM (Option α)} {f : α → OptionRecord} {o : OptionRecord}
    {c c' : Cursor} (h : (return (← x).map f : CursorM (Option OptionRecord)).on c =
      (.ok (some o), c')) : ∃ a, x.on c = (.ok (some a), c') ∧ f a = o := by
  obtain ⟨found, _, read, eq⟩ := on_bind_eq_ok.mp h
  obtain ⟨mapped, rfl⟩ := on_pure_eq_ok.mp eq
  obtain ⟨a, rfl, rfl⟩ := Option.map_eq_some_iff.mp mapped
  exact ⟨a, read, rfl⟩

theorem isRaw_of_on_readBody {mode : Mode} {kind : OptionKind} {o : OptionRecord} {c c' : Cursor}
    (h : (readBody mode kind).on c = (.ok (some o), c')) : o.isRaw = false := by
  cases kind with
  | advertisement =>
      obtain ⟨_, _, -, eq⟩ := on_bind_eq_ok.mp h
      obtain ⟨eq, -⟩ := on_pure_eq_ok.mp eq
      cases eq
      rfl
  | _ =>
      obtain ⟨_, -, rfl⟩ := exists_of_map h
      rfl

/-- The body says itself where it ends.  An advertisement takes all of its frame,
and so does what is passed on. -/
def selfDelimiting : OptionRecord → Bool
  | .advertisement _ | .raw _ => false
  | _ => true

/-- An option that says where it ends is read off exactly the bytes that are
written for it. -/
theorem on_readBody_eq_ok {mode : Mode} {kind : OptionKind} {o : OptionRecord} {c c' : Cursor}
    (ends : o.selfDelimiting = true) :
    (readBody mode kind).on c = (.ok (some o), c') ↔
      o.kind = UInt16.ofNat (Coded.code kind) ∧ o.Readable mode ∧
        c.Passes o.pieces.flatten c' := by
  constructor
  · intro h
    cases kind with
    | stack =>
        obtain ⟨s, read, rfl⟩ := exists_of_map h
        exact ⟨rfl, StackSetting.on_readBody_eq_ok.mp read⟩
    | advertisement =>
        obtain ⟨_, _, -, eq⟩ := on_bind_eq_ok.mp h
        obtain ⟨eq, -⟩ := on_pure_eq_ok.mp eq
        cases eq
        cases ends
    | authData =>
        obtain ⟨d, read, rfl⟩ := exists_of_map h
        exact ⟨rfl, AuthData.on_readBody_eq_ok.mp read⟩
    | session =>
        obtain ⟨s, read, rfl⟩ := exists_of_map h
        exact ⟨rfl, trivial, SessionSignal.on_readBody_eq_ok.mp read⟩
    | token =>
        obtain ⟨o, read, rfl⟩ := exists_of_map h
        exact ⟨rfl, TokenOption.on_readBody_eq_ok.mp read⟩
  · intro taken
    obtain ⟨same, readable, passed⟩ := taken
    cases o with
    | stack s =>
        obtain rfl := OptionKind.code_inj same
        have read := StackSetting.on_readBody_eq_ok.mpr ⟨readable, passed⟩
        exact on_bind_eq_ok.mpr ⟨some s, c', read, rfl⟩
    | authData d =>
        obtain rfl := OptionKind.code_inj same
        have read := AuthData.on_readBody_eq_ok.mpr ⟨readable, passed⟩
        exact on_bind_eq_ok.mpr ⟨some d, c', read, rfl⟩
    | session s =>
        obtain rfl := OptionKind.code_inj same
        have read := SessionSignal.on_readBody_eq_ok.mpr passed
        exact on_bind_eq_ok.mpr ⟨some s, c', read, rfl⟩
    | token o =>
        obtain rfl := OptionKind.code_inj same
        have read := TokenOption.on_readBody_eq_ok.mpr ⟨readable, passed⟩
        exact on_bind_eq_ok.mpr ⟨some o, c', read, rfl⟩
    | advertisement a => cases ends
    | raw f => cases ends

theorem isRaw_of_selfDelimiting {o : OptionRecord} (ends : o.selfDelimiting = true) :
    o.isRaw = false := by
  cases o with
  | raw f => cases ends
  | _ => rfl

theorem exists_kind {o : OptionRecord} (ends : o.selfDelimiting = true) :
    ∃ kind : OptionKind, kind ≠ .advertisement ∧ o.kind = UInt16.ofNat (Coded.code kind) := by
  cases o with
  | advertisement a => cases ends
  | raw f => cases ends
  | _ => exact ⟨_, by decide, rfl⟩

end OptionRecord

/-! ## Frames as options -/

namespace Frame

theorem interpret_kind (mode : Mode) (kind : OptionKind) (body : Bytes) :
    Frame.interpret mode ⟨UInt16.ofNat (Coded.code kind), body⟩ = do
      let known ← (OptionRecord.readBody mode kind).onBytes body
      return known.getD (.raw ⟨UInt16.ofNat (Coded.code kind), body⟩) := by
  rw [Frame.interpret, OptionKind.ofCode?_code]

/-- A frame whose body reads as an option of its kind is that option. -/
theorem interpret_of_readBody {mode : Mode} (kind : OptionKind) {body : Bytes}
    {o : OptionRecord} (h : (OptionRecord.readBody mode kind).onBytes body = .ok (some o)) :
    Frame.interpret mode ⟨UInt16.ofNat (Coded.code kind), body⟩ = .ok o := by
  rw [interpret_kind, h]
  rfl

/-- A frame stays as it is, or its body reads as an option of its kind. -/
theorem eq_of_interpret {mode : Mode} {f : Frame} {o : OptionRecord}
    (h : f.interpret mode = .ok o) :
    o = .raw f ∨ ∃ (kind : OptionKind) (c : Cursor), f.kind = UInt16.ofNat (Coded.code kind) ∧
      (OptionRecord.readBody mode kind).on (.ofBytes f.body) = (.ok (some o), c) := by
  unfold interpret at h
  split at h
  · cases h
    exact .inl rfl
  · rename_i kind lookup
    have number : f.kind = UInt16.ofNat (Coded.code kind) := by
      rw [Coded.code_of_ofCode? lookup, UInt16.ofNat_toNat]
    rcases body : (OptionRecord.readBody mode kind).onBytes f.body with e | _ | known
    · rw [body] at h
      cases h
    · rw [body] at h
      cases h
      exact .inl rfl
    · rw [body] at h
      cases h
      obtain ⟨c, read⟩ := exists_on_of_onBytes body
      exact .inr ⟨kind, c, number, read⟩

/-- The frames of an option that says where it ends: its kind, its bytes, and
anything behind them. -/
theorem interpret_eq_ok {mode : Mode} {kind : UInt16} {body : Bytes} {o : OptionRecord}
    (ends : o.selfDelimiting = true) :
    Frame.interpret mode ⟨kind, body⟩ = .ok o ↔
      kind = o.kind ∧ o.Readable mode ∧ ∃ behind, body = o.pieces.flatten ++ behind := by
  constructor
  · intro h
    rcases eq_of_interpret h with rfl | ⟨known, c, number, read⟩
    · cases ends
    · obtain ⟨same, readable, passed⟩ := (OptionRecord.on_readBody_eq_ok ends).mp read
      exact ⟨number.trans same.symm, readable, c.rest, passed.1⟩
  · intro taken
    obtain ⟨rfl, readable, behind, rfl⟩ := taken
    obtain ⟨known, -, number⟩ := OptionRecord.exists_kind ends
    rw [number]
    refine interpret_of_readBody known (onBytes_of_passes ?_)
    exact (OptionRecord.on_readBody_eq_ok ends).mpr ⟨number, readable, Cursor.passes_ofBytes⟩

end Frame

namespace OptionRecord

theorem interpret_advertisement (mode : Mode) (a : Advertisement) :
    (advertisement a).frame.interpret mode = .ok (.advertisement a.seen) := by
  refine Frame.interpret_of_readBody .advertisement ?_
  rw [show pieces (.advertisement a) = a.pieces from rfl, ← List.append_nil (_ ++ _)]
  refine onBytes_of_passes (on_bind_eq_ok.mpr ⟨a.seen, _, ?_, rfl⟩)
  exact Advertisement.on_readBody_of_padded Cursor.passes_ofBytes rfl

/-- What was written for an option is interpreted as that option. -/
theorem interpret_frame {mode : Mode} {o : OptionRecord} (h : o.Readable mode) :
    o.frame.interpret mode = .ok o := by
  rcases ends : o.selfDelimiting
  · cases o with
    | advertisement a =>
        obtain ⟨canonical, listed⟩ := h
        rw [interpret_advertisement, Advertisement.seen_of_canonical canonical listed]
    | raw f => exact h
    | _ => cases ends
  · rw [frame_of_interpreted (isRaw_of_selfDelimiting ends)]
    exact (Frame.interpret_eq_ok ends).mpr ⟨rfl, h, _, rfl⟩

end OptionRecord

/-- A frame that stays a frame stays the same frame. -/
theorem Frame.interpret_eq_raw {mode : Mode} {f g : Frame} (h : f.interpret mode = .ok (.raw g)) :
    g = f := by
  rcases eq_of_interpret h with eq | ⟨kind, c, -, read⟩
  · cases eq
    rfl
  · cases OptionRecord.isRaw_of_on_readBody read

theorem Frame.canonical_of_interpret {mode : Mode} {f : Frame} {a : Advertisement}
    (h : f.interpret mode = .ok (.advertisement a)) : ∀ m ∈ a.methods, m.Canonical := by
  rcases eq_of_interpret h with eq | ⟨kind, c, -, read⟩
  · cases eq
  · cases kind with
    | advertisement =>
        obtain ⟨_, _, body, eq⟩ := on_bind_eq_ok.mp read
        obtain ⟨eq, rfl⟩ := on_pure_eq_ok.mp eq
        cases eq
        obtain ⟨bs, -, -, methods⟩ := Advertisement.on_readBody_eq_ok.mp body
        intro m hm
        rw [methods] at hm
        obtain ⟨b, -, rfl⟩ := List.mem_map.mp hm
        exact AuthMethod.canonical_ofByte b
    | _ =>
        obtain ⟨_, -, eq⟩ := OptionRecord.exists_of_map read
        cases eq

end Socks6
