/-
# Socks6.Proofs.Growth — how long a message is when it is written again

What was read is not written as it came.  Duplicates are merged, which makes it
shorter, and interpreted records are filled up to four bytes, which may make it
longer: a record that came without its padding is accepted all the same.  So a
block that just fitted behind its length may not fit any more, and then writing
refuses it.  It can be told from the block how far this goes
(`Message.read_encodes`): filling up every accepted record that is interpreted
gives a block that is no shorter than the one that is written, and at most thirty
bytes are filled up in all.  A block whose records came with their padding leaves
room for the set that it says (`OptionSet.read_repacks`).

Both are read off the account of the options that were applied
(`OptionSet.charge_of_applyAll`), once by the lengths of records with padding and
once without: an option takes no more bytes than the body it was read from, and
what it leaves of the body is paid for and not written again.  What padding adds
to a set is bounded by itself, since an envelope of any kind carries few records
that are interpreted.
-/
import Socks6.Proofs.Filling
import Socks6.Proofs.Retention

namespace Socks6

open CursorM

/-! ## Padding -/

namespace OptionRecord

/-- How much the record is filled up; a frame is not. -/
def padding : OptionRecord → Nat
  | .raw _ => 0
  | o => Alignment.gap o.bodySize Frame.headerSize

theorem size_eq_add_padding (o : OptionRecord) : o.size = o.charge .bare + o.padding := by
  cases o with
  | raw frame => rfl
  | _ => exact (Nat.add_assoc _ _ _).symm

theorem padding_le (o : OptionRecord) : o.padding ≤ 3 := by
  cases o with
  | raw frame => exact Nat.zero_le 3
  | _ => exact Nat.le_of_lt_succ (Alignment.gap_lt _ _)

end OptionRecord

theorem SessionGroup.length_signals_le (g : SessionGroup)
    (one : g.teardown = false ∨ g.untrusted = false) :
    g.signals.length ≤ g.state.toList.length + 1 := by
  obtain ⟨state, teardown, untrusted⟩ := g
  rcases one with rfl | rfl
  · cases untrusted <;> simp [signals]
  · cases teardown <;> simp [signals]

namespace OptionSet

variable {s : OptionSet}

/-- In an envelope of any kind there are at most six records besides the settings and
the frames. -/
theorem Confined.length_le (h : s.Confined) :
    s.tokens.options.length + s.methods.advertisement.toList.length +
      s.authData.data.toList.length + s.session.signals.length ≤ 6 := by
  have advertisement : s.methods.advertisement.toList.length ≤ 1 := Option.length_toList_le
  have data : s.authData.data.toList.length ≤ 1 := Option.length_toList_le
  have request : s.tokens.windowRequest.toList.length ≤ 1 := Option.length_toList_le
  have token : s.tokens.token.toList.length ≤ 1 := Option.length_toList_le
  have window : s.tokens.window.toList.length ≤ 1 := Option.length_toList_le
  have reply : s.tokens.expenditureReply.toList.length ≤ 1 := Option.length_toList_le
  have state : s.session.state.toList.length ≤ 1 := Option.length_toList_le
  have options : s.tokens.options.length = s.tokens.windowRequest.toList.length +
      s.tokens.token.toList.length + s.tokens.window.toList.length +
      s.tokens.expenditureReply.toList.length := by
    simp [TokenGroup.options, Nat.add_assoc]
  have signals := s.session.length_signals_le
  unfold Confined at h
  split at h
  · obtain ⟨-, -, -, untrusted, noWindow, noReply, -, -⟩ := h
    have two := signals (.inr untrusted)
    simp only [noWindow, noReply, Option.toList_none, List.length_nil] at options
    omega
  · obtain ⟨-, -, teardown, noRequest, noToken, -, -, -⟩ := h
    have two := signals (.inl teardown)
    simp only [noRequest, noToken, Option.toList_none, List.length_nil] at options
    omega
  · obtain ⟨-, teardown, silent, -, -⟩ := h
    have two := signals (.inl teardown)
    have none : s.tokens.options.length = 0 := by
      rw [silent]
      rfl
    omega

theorem sum_padding_le {α : Type} (xs : List α) (f : α → OptionRecord) :
    (xs.map fun x => (f x).padding).sum ≤ 3 * xs.length := by
  induction xs with
  | nil => exact Nat.le_refl _
  | cons x xs ih =>
      have one := (f x).padding_le
      rw [List.map_cons, List.sum_cons, List.length_cons]
      omega

/-- At most thirty bytes are filled up: twelve in settings, of which only two kinds
are of a length that leaves a gap, and three in each of six others. -/
theorem padding_le (confined : s.Confined) : (s.records.map OptionRecord.padding).sum ≤ 30 := by
  have settings := s.stack.sum_settings (Alignment.gap · Frame.headerSize)
  have fastOpen := s.stack.fastOpen.length_entries_le
  have backlog := s.stack.backlog.length_entries_le
  have tokens := sum_padding_le s.tokens.options .token
  have methods := sum_padding_le s.methods.advertisement.toList .advertisement
  have data := sum_padding_le s.authData.data.toList .authData
  have signals := sum_padding_le s.session.signals .session
  have frames : (s.raw.map fun x => (OptionRecord.raw x).padding).sum = 0 :=
    List.sum_eq_zero fun n hn => by
      obtain ⟨f, -, rfl⟩ := List.mem_map.mp hn
      rfl
  have few := confined.length_le
  rw [show Alignment.gap 4 Frame.headerSize = 0 from rfl,
    show Alignment.gap 5 Frame.headerSize = 3 from rfl] at settings
  have stack : (s.stack.settings.map fun x => (OptionRecord.stack x).padding).sum ≤ 12 := by
    show (s.stack.settings.map fun x => Alignment.gap x.bodySize Frame.headerSize).sum ≤ 12
    omega
  rw [sum_records, frames]
  omega

theorem recordsSize_eq_add_padding (s : OptionSet) :
    s.recordsSize = s.charge .bare + (s.records.map OptionRecord.padding).sum := by
  rw [recordsSize_eq_sum, charge, ← List.sum_map_add,
    List.map_congr_left fun o _ => o.size_eq_add_padding]

end OptionSet

/-! ## Frames -/

theorem Cursor.Passes.length_le {b bs : Bytes} {c : Cursor} (h : (ofBytes b).Passes bs c) :
    bs.length ≤ b.length := by
  have whole : b = bs ++ c.rest := h.1
  rw [whole, List.length_append]
  exact Nat.le_add_right _ _

namespace Frame

variable {mode : Mode} {f : Frame} {o : OptionRecord} {u : Tariff}

/-- An option takes no more of a body than there is. -/
theorem bodySize_le_of_interpret (h : f.interpret mode = .ok o) : o.bodySize ≤ f.body.length := by
  rcases ends : o.selfDelimiting
  · rcases eq_of_interpret h with rfl | ⟨kind, c, -, read⟩
    · exact Nat.le_refl _
    · cases kind with
      | advertisement =>
          obtain ⟨a, _, body, eq⟩ := on_bind_eq_ok.mp read
          obtain ⟨eq, rfl⟩ := on_pure_eq_ok.mp eq
          cases eq
          obtain ⟨bs, passed, -, methods⟩ := Advertisement.on_readBody_eq_ok.mp body
          -- methods that are not listed and zeros that are none only make the record shorter
          have listed : a.emitted.length ≤ bs.length := by
            have some := List.length_filter_le (· ≠ AuthMethod.noAuth) a.methods
            have all := List.length_filter_le (· ≠ (0 : UInt8)) bs
            have same := congrArg List.length methods
            rw [List.length_map] at same
            exact some.trans (same.trans_le all)
          have room := passed.length_le
          rw [List.length_append, Bytes.length_ofUInt16] at room
          exact (Nat.add_le_add_left listed 2).trans room
      | _ =>
          obtain ⟨_, -, rfl⟩ := OptionRecord.exists_of_map read
          cases ends
  · obtain ⟨-, -, behind, whole⟩ := (interpret_eq_ok ends).mp h
    rw [whole, List.length_append, OptionRecord.length_pieces]
    exact Nat.le_add_right _ _

/-- What a record costs that came in this frame: the price of the frame if it is not
interpreted, and else that of the body. -/
def charge (u : Tariff) (mode : Mode) (f : Frame) : Nat :=
  if f.isUninterpreted mode then u.frame f else u.body f.body.length

theorem charge_bare (mode : Mode) (f : Frame) : f.charge .bare mode = f.size := by
  unfold charge
  split <;> rfl

/-- Body and header of a frame end together, so the price of a frame that is
interpreted is its length, rounded up. -/
theorem charge_padded (mode : Mode) (f : Frame) :
    f.charge .padded mode = if f.isUninterpreted mode then f.size else (f.size + 3) / 4 * 4 := by
  unfold charge
  split
  · rfl
  · simp only [Tariff.padded, size, headerSize, Alignment.padded, Alignment.gap, Alignment.unit]
    omega

theorem charge_padded_of_aligned (aligned : f.isUninterpreted mode = false → 4 ∣ f.size) :
    f.charge .padded mode = f.size := by
  rw [charge_padded]
  split
  · rfl
  · rename_i seen
    have whole := aligned (Bool.eq_false_iff.mpr seen)
    omega

theorem charge_le_of_interpret (u : Tariff) (h : f.interpret mode = .ok o) :
    o.charge u ≤ f.charge u mode := by
  rcases seen : f.isUninterpreted mode
  · have price : o.charge u = u.body o.bodySize := by
      cases o with
      | raw g => cases (isRaw_of_interpret h).trans seen
      | _ => rfl
    rw [charge, seen, price]
    exact u.mono (bodySize_le_of_interpret h)
  · have held : f.interpret mode = .ok (.raw f) := of_decide_eq_true seen
    cases held.symm.trans h
    rw [charge, seen]
    exact Nat.le_refl _

end Frame

/-! ## Blocks -/

namespace OptionSet

/-- The accepted frames pay for the records of the set that they make. -/
theorem charge_absorbAll (u : Tariff) (retain : Bool) (mode : Mode) (ps : List PlacedFrame) :
    ((empty mode).absorbAll retain ps).1.charge u ≤
      (((empty mode).absorbed retain ps).map fun p => p.frame.charge u mode).sum := by
  obtain ⟨os, each, run⟩ := exists_applyAll_absorbed retain (empty mode) ps
  refine (charge_of_applyAll_empty run).trans ?_
  clear run
  generalize (empty mode).absorbed retain ps = accepted at each
  induction each with
  | nil => exact Nat.le_refl _
  | cons held _ ih =>
      rw [List.map_cons, List.map_cons, List.sum_cons, List.sum_cons]
      exact Nat.add_le_add (Frame.charge_le_of_interpret u held.1) ih

theorem sum_absorbed_le (mode : Mode) (policy : Policy) (block : Bytes) :
    (((empty mode).absorbed policy.retainUnrecognized
      ((Cursor.ofBytes block).frames policy.maxOptions).1).map fun p => p.frame.size).sum ≤
        block.length := by
  obtain ⟨fs, tail, examined, placed, -⟩ :=
    Cursor.exists_examined policy.maxOptions (.ofBytes block)
  have whole : block = fs.flatMap Frame.bytes ++ tail := examined.cut
  rw [placed]
  have part := (divided_absorbAll policy.retainUnrecognized (empty mode)
    (PlacedFrame.inOrder (Cursor.ofBytes block).offset fs)).sublist.map (·.frame)
  rw [PlacedFrame.frames_inOrder] at part
  have shorter := (part.flatMap Frame.bytes).length_le
  rw [List.length_flatMap, List.map_map] at shorter
  simp only [Function.comp_def, Frame.length_bytes] at shorter
  rw [whole, List.length_append]
  exact shorter.trans (Nat.le_add_right _ _)

theorem recordsSize_ofBlock (mode : Mode) (policy : Policy) (block : Bytes) :
    let accepted := (empty mode).absorbed policy.retainUnrecognized
      ((Cursor.ofBytes block).frames policy.maxOptions).1
    (ofBlock mode policy block).1.recordsSize ≤
        (accepted.map fun p => p.frame.charge .padded mode).sum ∧
      (ofBlock mode policy block).1.recordsSize ≤ block.length + 30 := by
  intro accepted
  rw [fst_ofBlock]
  constructor
  · rw [← charge_padded]
    exact charge_absorbAll .padded _ mode _
  · have paid := charge_absorbAll .bare policy.retainUnrecognized mode
      ((Cursor.ofBytes block).frames policy.maxOptions).1
    have there := sum_absorbed_le mode policy block
    have gaps := padding_le (Lawful.ofBlock mode policy block).confined
    simp only [Frame.charge_bare] at paid
    rw [fst_ofBlock] at gaps
    rw [recordsSize_eq_add_padding]
    omega

/-- Where every accepted record that is interpreted came with its padding, the records
of the set take no more than the block. -/
theorem recordsSize_le_of_aligned {mode : Mode} {policy : Policy} {block : Bytes}
    (aligned : ∀ p ∈ (empty mode).absorbed policy.retainUnrecognized
      ((Cursor.ofBytes block).frames policy.maxOptions).1,
      p.frame.isUninterpreted mode = false → 4 ∣ p.frame.size) :
    (ofBlock mode policy block).1.recordsSize ≤ block.length := by
  have filled := (recordsSize_ofBlock mode policy block).1
  rw [List.map_congr_left fun p accepted =>
    Frame.charge_padded_of_aligned (aligned p accepted)] at filled
  exact filled.trans (sum_absorbed_le mode policy block)

/-- The set that is read off a block is written again in no more bytes than the accepted
records of the block took, those that are interpreted each rounded up to four.  So
there is room for it where the block was, if all of these came with their padding. -/
theorem read_repacks (mode : Mode) (policy : Policy) {block : Bytes} {c c' : Cursor}
    (fits : block.length ≤ Frame.maxBlock) (there : c.Passes (counted block) c') :
    let s := (ofBlock mode policy block).1
    let accepted := (empty mode).absorbed policy.retainUnrecognized
      ((Cursor.ofBytes block).frames policy.maxOptions).1
    (OptionSet.read mode policy).on c = (.ok (ofBlock mode policy block), c') ∧
    s.size - 2 ≤ (accepted.map fun p =>
      if p.frame.isUninterpreted mode then p.frame.size else (p.frame.size + 3) / 4 * 4).sum ∧
    ((∀ p ∈ accepted, p.frame.isUninterpreted mode = false → 4 ∣ p.frame.size) →
      ∀ buffer : Bytes, 2 + block.length ≤ buffer.length →
        ∃ c₂, s.write.on (.ofBytes buffer) = (.ok (), c₂) ∧ c₂.offset = s.size) := by
  intro s accepted
  refine ⟨on_read_eq_ok.mpr ⟨block, fits, there, rfl⟩, ?_, ?_⟩
  · have records : s.size - 2 = s.recordsSize := Nat.add_sub_cancel_left 2 _
    have rounded := List.map_congr_left fun p (_ : p ∈ accepted) => p.frame.charge_padded mode
    rw [records, ← rounded]
    exact (recordsSize_ofBlock mode policy block).1
  · intro aligned buffer room
    have shorter : s.recordsSize ≤ block.length := recordsSize_le_of_aligned aligned
    have space : s.bytes.length ≤ (Cursor.ofBytes buffer).rest.length := by
      rw [length_bytes]
      exact (Nat.add_le_add_left shorter 2).trans room
    obtain ⟨c₂, puts⟩ := Cursor.exists_puts space
    refine ⟨c₂, (s.writes _ c₂).mpr ⟨shorter.trans fits, puts⟩, ?_⟩
    rw [puts.offset_ofBytes, length_bytes]

/-- Two legs that agree, two offers that share a method, and a frame of five bytes
that is passed on: twelve of thirty-nine bytes are not needed any more. -/
theorem read_repacks_merged :
    let block : Bytes := [0, 1, 0, 8, 1, 1, 1, 7, 0, 1, 0, 8, 2, 1, 1, 7,
      0, 2, 0, 8, 0, 0, 1, 2, 0, 2, 0, 8, 0, 0, 2, 5, 127, 0, 0, 5, 9]
    let s := (ofBlock .request .passthrough block).1
    s.size = 27 ∧
      (∀ p ∈ (empty .request).absorbed true ((Cursor.ofBytes block).frames 1024).1,
        p.frame.isUninterpreted .request = false → 4 ∣ p.frame.size) ∧
      ∃ c₂, s.write.on (.ofBytes (List.replicate 39 255)) = (.ok (), c₂) ∧ c₂.offset = 27 := by
  intro block s
  have size : s.size = 27 := by decide
  have aligned : ∀ p ∈ (empty .request).absorbed true ((Cursor.ofBytes block).frames 1024).1,
      p.frame.isUninterpreted .request = false → 4 ∣ p.frame.size := by
    decide
  have there : (Cursor.ofBytes (counted block ++ [])).Passes (counted block)
      ⟨(counted block).toArray, []⟩ := Cursor.passes_ofBytes
  obtain ⟨-, -, again⟩ := read_repacks .request .passthrough (by decide) there
  have written := again aligned (List.replicate 39 255) (by decide)
  exact ⟨size, aligned, size ▸ written⟩

end OptionSet

/-! ## Messages -/

namespace Message

variable {m : Message} {mode : Mode} {policy : Policy}

theorem recordsSize_of_assemble {h : Head} {s : OptionSet} (assembled : assemble h s = .ok m) :
    m.options.recordsSize = s.recordsSize := by
  cases h with
  | request code port address =>
      cases assembled
      rfl
  | authReply code method =>
      obtain ⟨t, selected, eq⟩ := bind_eq_ok.mp assembled
      obtain ⟨-, -, rfl⟩ := OptionSet.select_eq_ok.mp selected
      cases eq
      rfl
  | operationReply code initialDataOffset port address =>
      cases assembled
      rfl

theorem encode_of_fits (proper : m.head.Proper) (fits : m.options.recordsSize ≤ Frame.maxBlock) :
    ∃ b, m.encode = .ok b :=
  ⟨m.bytes, encode_eq_ok.mpr ⟨⟨proper, fits⟩, rfl⟩⟩

theorem encode_of_long (proper : m.head.Proper) (long : Frame.maxBlock < m.options.recordsSize) :
    m.encode = .error
      (.invalidField "options length" (.blockTooLong m.options.recordsSize Frame.maxBlock)) := by
  have room : m.head.bytes.length ≤ (Cursor.ofBytes (List.replicate m.size 0)).rest.length := by
    rw [m.head.length_bytes]
    simp [Cursor.ofBytes, size]
  obtain ⟨c, puts⟩ := Cursor.exists_puts room
  have written := (m.head.writes _ c).mpr ⟨proper, puts⟩
  have failed := (on_bind_of_ok (f := fun _ => m.options.write) written).trans
    (OptionSet.on_write_of_long long c)
  change m.write.on _ = _ at failed
  rw [encode, fill, failed]

/-- Whatever was read can be written, unless its records are longer now than the
length field can say.  They are no longer than the accepted records of the block
are, each of them filled up unless it is passed on as it came; and no longer than
the block and thirty bytes. -/
theorem read_encodes {c c' : Cursor} (read : (Message.read mode policy).on c = (.ok m, c')) :
    ∃ block, c.Passes (m.head.bytes ++ OptionSet.counted block) c' ∧
      block.length ≤ Frame.maxBlock ∧
      let accepted := (OptionSet.empty mode).absorbed policy.retainUnrecognized
        ((Cursor.ofBytes block).frames policy.maxOptions).1
      let size := m.options.recordsSize
      size ≤ (accepted.map fun p => p.frame.charge .padded mode).sum ∧
      (accepted.map fun p => p.frame.size).sum ≤ block.length ∧
      size ≤ block.length + 30 ∧
      ((∀ p ∈ accepted, p.frame.isUninterpreted mode = false → 4 ∣ p.frame.size) →
        ∃ b, m.encode = .ok b) ∧
      (block.length ≤ 65505 → ∃ b, m.encode = .ok b) ∧
      (size ≤ Frame.maxBlock → ∃ b, m.encode = .ok b) ∧
      (Frame.maxBlock < size → m.encode = .error
        (.invalidField "options length" (.blockTooLong size Frame.maxBlock))) := by
  obtain ⟨c₁, s, events, head, options, assembled⟩ := on_read_eq_ok.mp read
  obtain ⟨-, proper, -, first⟩ := Head.on_read_eq_ok.mp head
  obtain ⟨block, fits, second, said⟩ := OptionSet.on_read_eq_ok.mp options
  obtain ⟨filled, near⟩ := OptionSet.recordsSize_ofBlock mode policy block
  have there := OptionSet.sum_absorbed_le mode policy block
  rw [said, ← recordsSize_of_assemble assembled] at filled near
  refine ⟨block, Cursor.passes_append.mpr ⟨c₁, first, second⟩, fits, filled, there, near, ?_, ?_,
    encode_of_fits proper, encode_of_long proper⟩
  · intro aligned
    have same (p : PlacedFrame) (accepted : p ∈ (OptionSet.empty mode).absorbed
        policy.retainUnrecognized ((Cursor.ofBytes block).frames policy.maxOptions).1) :
        p.frame.charge .padded mode = p.frame.size :=
      Frame.charge_padded_of_aligned (aligned p accepted)
    rw [List.map_congr_left same] at filled
    exact encode_of_fits proper ((filled.trans there).trans fits)
  · intro short
    refine encode_of_fits proper (near.trans ?_)
    rw [Frame.maxBlock]
    omega

/-- A session that came without its three bytes of padding. -/
theorem read_encodes_unpadded :
    let m : Message := .request .connect (.ipv4 ⟨[1, 2, 3, 4], rfl⟩) 80
      ((OptionSet.empty .request).attempt .requestSession).2
    let c : Cursor := .ofBytes [6, 1, 1, 0, 80, 1, 1, 2, 3, 4, 0, 5, 0, 4, 0, 5, 1, 9]
    let c' : Cursor := ⟨#[6, 1, 1, 0, 80, 1, 1, 2, 3, 4, 0, 5, 0, 4, 0, 5, 1], [9]⟩
    (Message.read .request .strict).on c = (.ok m, c') ∧
    ∃ block, c.Passes (m.head.bytes ++ OptionSet.counted block) c' ∧
      m.options.recordsSize ≤ block.length + 30 ∧ ∃ b, m.encode = .ok b := by
  intro m c c'
  have read : (Message.read .request .strict).on c = (.ok m, c') := by decide
  obtain ⟨block, there, -, -, -, near, -, -, encodes, -⟩ := read_encodes read
  exact ⟨read, block, there, near, encodes (by decide)⟩

/-! ## A block that does not fit any more -/

/-- Ten records without padding, of all interpreted kinds. -/
def unpadded : List Frame :=
  [⟨1, [1, 4, 1, 0, 1]⟩, ⟨1, [2, 4, 1, 0, 2]⟩, ⟨1, [1, 4, 4, 0, 1]⟩, ⟨1, [2, 4, 4, 0, 2]⟩,
    ⟨4, [2, 3, 7, 7, 7]⟩, ⟨4, [5]⟩, ⟨5, [1, 0, 0, 0, 1]⟩, ⟨5, [3, 0, 0, 0, 1]⟩,
    ⟨2, [0, 0, 1, 2, 4]⟩, ⟨3, [2, 1, 2, 97, 97, 3, 98, 98, 98]⟩]

theorem length_unpadded (f : Frame) :
    ((unpadded ++ [f]).flatMap Frame.bytes).length = 90 + f.size := by
  have small : (unpadded.flatMap Frame.bytes).length = 90 := by decide
  rw [List.flatMap_append, List.length_append, small, List.flatMap_singleton, Frame.length_bytes]

/-- In front of a frame that is not interpreted, and room permitting, they make records
of a hundred and twenty bytes. -/
theorem recordsSize_unpadded {f : Frame} (unknown : f.isUninterpreted .request = true)
    (fits : 90 + f.size ≤ Frame.maxBlock) :
    (OptionSet.ofBlock .request .passthrough
      ((unpadded ++ [f]).flatMap Frame.bytes)).1.recordsSize = 120 + f.size := by
  let s := ((OptionSet.empty .request).absorbAll true (PlacedFrame.inOrder 0 unpadded)).1
  have mode : s.mode = .request := by decide
  have size : s.recordsSize = 120 := by decide
  rw [← mode] at unknown
  rw [← length_unpadded] at fits
  have few : (unpadded ++ [f]).length ≤ Policy.passthrough.maxOptions := by
    rw [List.length_append, List.length_singleton]
    decide
  have placed := Cursor.frames_flatMap (fun g hg => (Frame.size_le_of_mem hg).trans fits) few
  have same : (PlacedFrame.inOrder 0 (unpadded ++ [f])).map (·.frame) =
      (PlacedFrame.inOrder 0 unpadded ++ ([⟨0, f⟩] : List PlacedFrame)).map (·.frame) := by
    rw [List.map_append, PlacedFrame.frames_inOrder, PlacedFrame.frames_inOrder]
    rfl
  have kept := (OptionSet.absorb_uninterpreted (p := ⟨0, f⟩) unknown).1
  have set : (OptionSet.ofBlock .request .passthrough
      ((unpadded ++ [f]).flatMap Frame.bytes)).1 = { s with raw := s.raw ++ [f] } := by
    rw [OptionSet.fst_ofBlock, placed, OptionSet.absorbAll_congr same,
      OptionSet.fst_absorbAll_append]
    exact congrArg Prod.fst (OptionSet.absorbAll_of_ok kept [])
  have records : OptionSet.records { s with raw := s.raw ++ [f] } = s.records ++ [.raw f] := by
    simp [OptionSet.records]
  rw [set, OptionSet.recordsSize_eq_sum, records, List.map_append, List.sum_append,
    ← OptionSet.recordsSize_eq_sum, size, List.map_singleton, List.sum_singleton]
  rfl

theorem encode_unpadded {f : Frame} (unknown : f.isUninterpreted .request = true)
    (size : f.size = 65416) :
    let block := (unpadded ++ [f]).flatMap Frame.bytes
    block.length = 65506 ∧
    ∃ m c', (Message.read .request .passthrough).on (.ofBytes
        ([6, 1, 1, 0, 80, 1, 1, 2, 3, 4] ++ OptionSet.counted block)) = (.ok m, c') ∧
      m.encode = .error (.invalidField "options length" (.blockTooLong 65536 65535)) := by
  intro block
  have length : block.length = 65506 := by rw [length_unpadded, size]
  have fits : block.length ≤ Frame.maxBlock := by
    rw [length]
    decide
  have total := recordsSize_unpadded unknown (length_unpadded f ▸ fits)
  rw [size] at total
  generalize said : OptionSet.ofBlock .request .passthrough block = result at total
  obtain ⟨s, events⟩ := result
  let m : Message := .request .connect (.ipv4 ⟨[1, 2, 3, 4], rfl⟩) 80 s
  have proper : m.head.Proper := trivial
  have spelled : m.head.bytes = [6, 1, 1, 0, 80, 1, 1, 2, 3, 4] := rfl
  have there : (Cursor.ofBytes (m.head.bytes ++ OptionSet.counted block ++ [])).Passes
      (m.head.bytes ++ OptionSet.counted block) _ := Cursor.passes_ofBytes
  obtain ⟨c₁, first, second⟩ := Cursor.passes_append.mp there
  rw [List.append_nil, spelled] at first
  have head : (Head.read .request).on _ = (.ok m.head, c₁) :=
    Head.on_read_eq_ok.mpr ⟨rfl, proper, trivial, spelled ▸ first⟩
  have options := OptionSet.on_read_eq_ok.mpr ⟨block, fits, second, said⟩
  refine ⟨length, m, _, on_read_eq_ok.mpr ⟨c₁, s, events, head, options, rfl⟩, ?_⟩
  have same : m.options.recordsSize = 65536 := total
  have long : Frame.maxBlock < m.options.recordsSize := by
    rw [same]
    decide
  rw [encode_of_long proper long, same]
  rfl

/-- One byte more than can always be written again: a request is read from a block
of this length, and its options take too many bytes now. -/
theorem read_not_encoded :
    let filler : Frame := ⟨0x7abc, List.replicate 65412 0⟩
    let block := (unpadded ++ [filler]).flatMap Frame.bytes
    block.length = 65506 ∧
    ∃ m c', (Message.read .request .passthrough).on (.ofBytes
        ([6, 1, 1, 0, 80, 1, 1, 2, 3, 4] ++ OptionSet.counted block)) = (.ok m, c') ∧
      m.encode = .error (.invalidField "options length" (.blockTooLong 65536 65535)) := by
  -- a body of this length is better not computed, so what is needed is known of any body
  have unknown (body : Bytes) : Frame.isUninterpreted .request ⟨0x7abc, body⟩ = true :=
    decide_eq_true rfl
  have size (n : Nat) : Frame.size ⟨0x7abc, List.replicate n 0⟩ = 4 + n := by
    rw [Frame.size, List.length_replicate]
    rfl
  exact encode_unpadded (unknown _) (size 65412)

end Message

end Socks6
