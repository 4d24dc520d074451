/-
# Socks6.Proofs.Grammar — what an envelope looks like

The grammar of the three envelopes, as strings of bytes and without a reader: an
address (`Address.Spelled`), a head (`Head.Spelled`), and the envelope with its
counted block of options (`Message.Layout`).  Reading accepts exactly this
grammar (`Message.read_iff_layout`), and what it accepts says what is spelled.

Of the option block the grammar asks nothing but its length.  So no damage in it
and no limit of the policy may fail the envelope or move its end, and two things
are to be shown behind the head.  The search for frames ends by itself, because a
frame takes at least its four bytes of header (`Cursor.frames_progress`).  And
the method of an authentication reply, which is selected after the options are
read, can always be selected: an option never selects one.
-/
import Socks6.Proofs.RoundTrip

namespace Socks6

open CursorM

/-! ## The grammar -/

/-- The number that two bytes spell. -/
def Bytes.word (hi lo : UInt8) : Nat := hi.toNat * 256 + lo.toNat

/-- The bytes of an address: a tag, and four octets, sixteen octets or a counted
name of one byte or more, none of them zero. -/
inductive Address.Spelled : Address → Bytes → Prop
  | ipv4 (octets : Octets 4) : Spelled (.ipv4 octets) (0x01 :: octets.val)
  | ipv6 (octets : Octets 16) : Spelled (.ipv6 octets) (0x04 :: octets.val)
  | domain {name : ShortString} {length : UInt8} (counted : name.bytes.length = length.toNat)
      (positive : 1 ≤ length.toNat) (noZero : ∀ b ∈ name.bytes, b ≠ 0) :
      Spelled (.domain name) (0x03 :: length :: name.bytes)

/-- The bytes of a head: the version 6.1, the byte of a code, and the fields of its
kind of envelope. -/
inductive Head.Spelled : Head → Bytes → Prop
  | request {code : RequestCode} {port : UInt16} {address : Address} {byte hi lo : UInt8}
      {whither : Bytes} (named : Coded.code code = byte.toNat)
      (number : port.toNat = Bytes.word hi lo) (spelled : address.Spelled whither) :
      Spelled (.request code port address) (0x06 :: 0x01 :: byte :: hi :: lo :: whither)
  | authReply {code : AuthReplyCode} {byte : UInt8} (named : Coded.code code = byte.toNat)
      (method : UInt8) :
      Spelled (.authReply code (.ofByte method)) [0x06, 0x01, byte, method]
  | operationReply {code : OperationReplyCode} {start port : UInt16} {address : Address}
      {byte hi lo hi' lo' : UInt8} {whither : Bytes} (named : Coded.code code = byte.toNat)
      (position : start.toNat = Bytes.word hi lo) (number : port.toNat = Bytes.word hi' lo')
      (spelled : address.Spelled whither) :
      Spelled (.operationReply code start port address)
        (0x06 :: 0x01 :: byte :: hi :: lo :: hi' :: lo' :: whither)

/-- The first `n` bytes are an envelope with this head: the bytes of the head, two
bytes that count the option block, and so many bytes, whatever they are. -/
def Message.Layout (b : Bytes) (h : Head) (n : Nat) : Prop :=
  ∃ front hi lo block behind, h.Spelled front ∧ block.length = Bytes.word hi lo ∧
    b = front ++ [hi, lo] ++ block ++ behind ∧ n = front.length + 2 + block.length

/-! ## The grammar and the bytes that are written -/

namespace Bytes

theorem ofUInt16_eq_pair {n : UInt16} {hi lo : UInt8} :
    ofUInt16 n = [hi, lo] ↔ n.toNat = word hi lo := by
  have spelled : value [hi, lo] = word hi lo := by simp [value, word]
  constructor
  · intro digits
    rw [← spelled, ← digits, value_ofUInt16]
  · intro number
    have same : n = UInt16.ofNat (value [hi, lo]) := by rw [spelled, ← number, UInt16.ofNat_toNat]
    rw [same]
    exact ofUInt16_value rfl

theorem exists_pair (n : UInt16) : ∃ hi lo, ofUInt16 n = [hi, lo] :=
  List.length_eq_two.mp (length_ofUInt16 n)

theorem ofUInt16_length_eq_pair {bs : Bytes} {hi lo : UInt8} :
    bs.length ≤ Frame.maxBlock ∧ ofUInt16 (UInt16.ofNat bs.length) = [hi, lo] ↔
      bs.length = word hi lo := by
  rw [ofUInt16_eq_pair]
  constructor
  · intro h
    obtain ⟨fits, number⟩ := h
    rwa [UInt16.toNat_ofNat_of_lt' (Nat.lt_succ_of_le fits)] at number
  · intro number
    have high := hi.toNat_lt
    have low := lo.toNat_lt
    have fits : bs.length ≤ Frame.maxBlock := by
      rw [number, word, Frame.maxBlock]
      omega
    exact ⟨fits, by rwa [UInt16.toNat_ofNat_of_lt' (Nat.lt_succ_of_le fits)]⟩

end Bytes

theorem Coded.byte_eq_iff {α : Type} [Coded α] {a : α} {b : UInt8} :
    Coded.byte a = b ↔ Coded.code a = b.toNat := by
  have same : (Coded.byte a).toNat = Coded.code a := UInt8.toNat_ofNat_of_lt' (Coded.code_lt a)
  rw [← same, UInt8.toNat_inj]

namespace Address

variable {a : Address} {bs : Bytes}

theorem spelled_iff : a.Spelled bs ↔ a.Proper ∧ a.bytes = bs := by
  constructor
  · intro h
    cases h with
    | ipv4 octets => exact ⟨trivial, rfl⟩
    | ipv6 octets => exact ⟨trivial, rfl⟩
    | @domain name length counted positive noZero =>
        have some : name.bytes ≠ [] := List.length_pos_iff_ne_nil.mp (counted ▸ positive)
        refine ⟨ShortString.checkName_eq_ok.mpr ⟨some, noZero⟩, ?_⟩
        show 0x03 :: name.pieces.flatten = _
        rw [ShortString.pieces_flatten, ShortString.length, counted, UInt8.ofNat_toNat]
  · intro h
    obtain ⟨proper, rfl⟩ := h
    cases a with
    | ipv4 octets => exact .ipv4 octets
    | ipv6 octets => exact .ipv6 octets
    | domain name =>
        obtain ⟨some, noZero⟩ := ShortString.checkName_eq_ok.mp proper
        have fits : (UInt8.ofNat name.length).toNat = name.length :=
          UInt8.toNat_ofNat_of_lt' (Nat.lt_succ_of_le name.length_le)
        show Spelled _ (0x03 :: name.pieces.flatten)
        rw [ShortString.pieces_flatten]
        have positive : 1 ≤ (UInt8.ofNat name.length).toNat := by
          rw [fits]
          exact List.length_pos_iff_ne_nil.mpr some
        exact .domain fits.symm positive noZero

end Address

namespace Head

variable {h : Head} {bs : Bytes}

theorem spelled_iff : h.Spelled bs ↔ h.Proper ∧ h.Canonical ∧ h.bytes = bs := by
  constructor
  · intro spelled
    cases spelled with
    | request named number spelled =>
        obtain ⟨proper, rfl⟩ := Address.spelled_iff.mp spelled
        refine ⟨proper, trivial, ?_⟩
        rw [bytes, fields, Coded.byte_eq_iff.mpr named, Bytes.ofUInt16_eq_pair.mpr number]
        rfl
    | authReply named method =>
        refine ⟨trivial, AuthMethod.canonical_ofByte method, ?_⟩
        rw [bytes, fields, Coded.byte_eq_iff.mpr named, AuthMethod.byte_ofByte]
        rfl
    | operationReply named position number spelled =>
        obtain ⟨proper, rfl⟩ := Address.spelled_iff.mp spelled
        refine ⟨proper, trivial, ?_⟩
        rw [bytes, fields, Coded.byte_eq_iff.mpr named, Bytes.ofUInt16_eq_pair.mpr position,
          Bytes.ofUInt16_eq_pair.mpr number]
        rfl
  · intro spelled
    obtain ⟨proper, canonical, rfl⟩ := spelled
    cases h with
    | request code port address =>
        obtain ⟨hi, lo, digits⟩ := Bytes.exists_pair port
        rw [bytes, fields, digits]
        exact .request (Coded.byte_eq_iff.mp rfl) (Bytes.ofUInt16_eq_pair.mp digits)
          (Address.spelled_iff.mpr ⟨proper, rfl⟩)
    | authReply code method =>
        have spelled := Spelled.authReply (Coded.byte_eq_iff.mp (rfl : Coded.byte code = _))
          method.byte
        rwa [show AuthMethod.ofByte method.byte = method from canonical] at spelled
    | operationReply code start port address =>
        obtain ⟨hi, lo, digits⟩ := Bytes.exists_pair start
        obtain ⟨hi', lo', digits'⟩ := Bytes.exists_pair port
        rw [bytes, fields, digits, digits']
        exact .operationReply (Coded.byte_eq_iff.mp rfl) (Bytes.ofUInt16_eq_pair.mp digits)
          (Bytes.ofUInt16_eq_pair.mp digits') (Address.spelled_iff.mpr ⟨proper, rfl⟩)

end Head

/-! ## The search for frames ends -/

/-- Every frame takes four bytes or more; and where the limit ended the search,
there was a frame for each of its rounds. -/
theorem Cursor.frames_progress (limit : Nat) (c : Cursor) :
    4 * (c.frames limit).1.length ≤ c.remaining ∧
      ∀ left, (c.frames limit).2 = .limitReached left → 4 * limit + left ≤ c.remaining := by
  induction limit generalizing c with
  | zero =>
      refine ⟨Nat.zero_le _, fun left ended => ?_⟩
      rw [frames] at ended
      split at ended
      · cases ended
      · cases ended
        exact Nat.le_of_eq (Nat.zero_add _)
  | succ limit ih =>
      rw [frames]
      split
      · refine ⟨Nat.zero_le _, ?_⟩
        intro left ended
        cases ended
      · split
        · refine ⟨Nat.zero_le _, ?_⟩
          intro left ended
          cases ended
        · rename_i frame next read
          obtain ⟨few, ended⟩ := ih next
          have taken := congrArg List.length (Frame.on_read_eq_ok.mp read).2.1
          rw [List.length_append, Frame.length_bytes, Frame.size, Frame.headerSize] at taken
          have total : c.remaining = 4 + frame.body.length + next.remaining := taken
          constructor
          · rw [List.length_cons]
            omega
          · intro left stop
            have rest := ended left stop
            omega

/-! ## The options behind the head -/

namespace OptionSet

/-- Whatever a block says, it leaves every method to be selected. -/
theorem exists_select_ofBlock (policy : Policy) (block : Bytes) (method : AuthMethod) :
    ∃ s, (ofBlock .authReply policy block).1.select method = .ok s ∧
      s.methods.selected = method := by
  obtain ⟨os, -, -, step⟩ := extends_ofBlock .authReply policy block
  exact ⟨_, select_eq_ok.mpr ⟨step.mode, .inl step.selected, rfl⟩, rfl⟩

end OptionSet

namespace Message

theorem exists_assemble (h : Head) (policy : Policy) (block : Bytes) :
    ∃ m, assemble h (OptionSet.ofBlock h.mode policy block).1 = .ok m ∧ m.head = h := by
  cases h with
  | request code port address => exact ⟨_, rfl, rfl⟩
  | authReply code method =>
      obtain ⟨s, selected, eq⟩ := OptionSet.exists_select_ofBlock policy block method
      exact ⟨_, bind_eq_ok.mpr ⟨s, selected, rfl⟩, congrArg (Head.authReply code) eq⟩
  | operationReply code start port address => exact ⟨_, rfl, rfl⟩

variable {mode : Mode} {policy : Policy} {b : Bytes} {n : Nat}

theorem layout_of_read {m : Message} {c : Cursor}
    (read : (Message.read mode policy).on (.ofBytes b) = (.ok m, c)) :
    m.head.mode = mode ∧ Layout b m.head c.offset ∧ m.options.mode = mode ∧ c.buffer = b := by
  have kind := (stable_of_read read).2.kind
  obtain ⟨c₁, s, events, head, options, -⟩ := on_read_eq_ok.mp read
  obtain ⟨same, proper, canonical, first⟩ := Head.on_read_eq_ok.mp head
  obtain ⟨block, fits, second, -⟩ := OptionSet.on_read_eq_ok.mp options
  obtain ⟨hi, lo, digits⟩ := Bytes.exists_pair (UInt16.ofNat block.length)
  rw [digits] at second
  have whole := Cursor.passes_append.mpr ⟨c₁, first, second⟩
  refine ⟨same, ⟨m.head.bytes, hi, lo, block, c.rest, ?_, ?_, ?_, ?_⟩, kind.trans same, ?_⟩
  · exact Head.spelled_iff.mpr ⟨proper, canonical, rfl⟩
  · exact Bytes.ofUInt16_length_eq_pair.mp ⟨fits, digits⟩
  · rw [List.append_assoc m.head.bytes]
    exact whole.1
  · have moved := whole.offset_eq
    rw [List.length_append, List.length_append, Cursor.offset_ofBytes] at moved
    simpa [Nat.add_assoc] using moved
  · have start : b = _ ++ c.rest := whole.1
    rw [Cursor.buffer, whole.2, start]
    rfl

theorem exists_read_of_layout {h : Head} (same : h.mode = mode) (layout : Layout b h n) :
    ∃ m c, (Message.read mode policy).on (.ofBytes b) = (.ok m, c) ∧ m.head = h ∧ c.offset = n := by
  obtain ⟨front, hi, lo, block, behind, spelled, counted, rfl, rfl⟩ := layout
  obtain ⟨proper, canonical, rfl⟩ := Head.spelled_iff.mp spelled
  obtain ⟨fits, digits⟩ := Bytes.ofUInt16_length_eq_pair.mpr counted
  obtain ⟨m, assembled, rfl⟩ := exists_assemble h policy block
  rw [same] at assembled
  rw [← digits, List.append_assoc m.head.bytes]
  have whole := @Cursor.passes_ofBytes
    (m.head.bytes ++ (Bytes.ofUInt16 (UInt16.ofNat block.length) ++ block)) behind
  obtain ⟨c₁, first, second⟩ := Cursor.passes_append.mp whole
  have head := Head.on_read_eq_ok.mpr ⟨same, proper, canonical, first⟩
  have options := OptionSet.on_read_eq_ok.mpr
    ⟨block, fits, second, (rfl : OptionSet.ofBlock mode policy block = _)⟩
  refine ⟨m, _, on_read_eq_ok.mpr ⟨c₁, _, _, head, options, assembled⟩, rfl, ?_⟩
  rw [whole.offset_eq, Cursor.offset_ofBytes]
  simp [Nat.add_assoc]

/-- The codes of each kind of envelope are the first few numbers. -/
theorem exists_code_iff (n : Nat) :
    ((∃ code : RequestCode, Coded.code code = n) ↔ n ≤ 3) ∧
    ((∃ code : AuthReplyCode, Coded.code code = n) ↔ n ≤ 1) ∧
    ((∃ code : OperationReplyCode, Coded.code code = n) ↔ n ≤ 9) := by
  refine ⟨⟨?_, fun small => ?_⟩, ⟨?_, fun small => ?_⟩, ⟨?_, fun small => ?_⟩⟩
  · rintro ⟨code, rfl⟩
    cases code <;> decide
  · match n, small with
    | 0, _ => exact ⟨.noOp, rfl⟩
    | 1, _ => exact ⟨.connect, rfl⟩
    | 2, _ => exact ⟨.bind, rfl⟩
    | 3, _ => exact ⟨.udpAssociate, rfl⟩
  · rintro ⟨code, rfl⟩
    cases code <;> decide
  · match n, small with
    | 0, _ => exact ⟨.success, rfl⟩
    | 1, _ => exact ⟨.failure, rfl⟩
  · rintro ⟨code, rfl⟩
    cases code <;> decide
  · match n, small with
    | 0, _ => exact ⟨.success, rfl⟩
    | 1, _ => exact ⟨.failure, rfl⟩
    | 2, _ => exact ⟨.notAllowed, rfl⟩
    | 3, _ => exact ⟨.netUnreachable, rfl⟩
    | 4, _ => exact ⟨.hostUnreachable, rfl⟩
    | 5, _ => exact ⟨.connectionRefused, rfl⟩
    | 6, _ => exact ⟨.ttlExpired, rfl⟩
    | 7, _ => exact ⟨.commandNotSupported, rfl⟩
    | 8, _ => exact ⟨.addressNotSupported, rfl⟩
    | 9, _ => exact ⟨.timeout, rfl⟩

/-- Reading accepts exactly the envelopes of its kind, says what is spelled in
their heads and stops behind their blocks.  The codes are the first few numbers,
the search of a block ends by itself, and no method is refused. -/
theorem read_iff_layout (mode : Mode) (policy : Policy) :
    (∀ b h n, (∃ m c, (Message.read mode policy).on (.ofBytes b) = (.ok m, c) ∧
        m.head = h ∧ c.offset = n) ↔ h.mode = mode ∧ Layout b h n) ∧
    (∀ b m c, (Message.read mode policy).on (.ofBytes b) = (.ok m, c) →
      m.options.mode = mode ∧ c.buffer = b) ∧
    (∀ n, ((∃ code : RequestCode, Coded.code code = n) ↔ n ≤ 3) ∧
      ((∃ code : AuthReplyCode, Coded.code code = n) ↔ n ≤ 1) ∧
      ((∃ code : OperationReplyCode, Coded.code code = n) ↔ n ≤ 9)) ∧
    (∀ (block : Bytes) (limit : Nat),
      4 * ((Cursor.ofBytes block).frames limit).1.length ≤ block.length ∧
      ∀ left, ((Cursor.ofBytes block).frames limit).2 = .limitReached left →
        4 * limit + left ≤ block.length) ∧
    ∀ block method, ∃ s, (OptionSet.ofBlock .authReply policy block).1.select method = .ok s ∧
      s.methods.selected = method := by
  refine ⟨fun b h n => ⟨?_, ?_⟩, ?_, exists_code_iff, ?_, ?_⟩
  · rintro ⟨m, c, read, rfl, rfl⟩
    obtain ⟨kind, layout, -⟩ := layout_of_read read
    exact ⟨kind, layout⟩
  · rintro ⟨kind, layout⟩
    exact exists_read_of_layout kind layout
  · intro b m c read
    exact (layout_of_read read).2.2
  · intro block limit
    exact Cursor.frames_progress limit (.ofBytes block)
  · intro block method
    exact OptionSet.exists_select_ofBlock policy block method

end Message

end Socks6
