/-
# Socks6.Proofs.Inversion — the two directions of a code

Addresses, short strings, credentials and verdicts are each read by one function
and written by another.  `CursorM.Inverse read write size` says that the two undo
each other: whatever was read is written as the bytes it was read from, as many as
its size says, and whatever was written reads as the same value, in front of any
bytes, and no further.  For each of the four this is put together from what its
writer puts and what its reader passes (`CursorM.Inverse.of_bytes`).

The writer of an address has a condition, and so has its reader.  It is the same
one: a domain is refused in both directions if it is no name, and nothing else is
refused where there is room (`parts_inverse`).
-/
import Socks6.Proofs.Body

namespace Socks6

open CursorM

namespace CursorM

variable {α : Type} {read : CursorM α} {write : α → CursorM Unit} {size : α → Nat}

/-- Reading and writing undo each other. -/
structure Inverse (read : CursorM α) (write : α → CursorM Unit) (size : α → Nat) : Prop where
  /-- What was read from the start of `b` is written again as those bytes, into any
  buffer of its size. -/
  writes : ∀ (b : Bytes) (a : α) (c : Cursor), read.on (.ofBytes b) = (.ok a, c) →
    size a = c.offset ∧ ∀ buffer : Bytes, buffer.length = c.offset →
      (write a).on (.ofBytes buffer) = (.ok (), ⟨(b.take c.offset).toArray, []⟩)
  /-- What was written, wherever it was written, is read again, whatever follows. -/
  reads : ∀ (a : α) (e : Bytes) (c c' : Cursor) (behind : Bytes),
    (write a).on c = (.ok (), c') → c'.passed.toList = c.passed.toList ++ e →
      read.on (.ofBytes (e ++ behind)) = (.ok a, ⟨e.toArray, behind⟩)

/-- A writer and a reader that go over the same bytes, under the same condition. -/
theorem Inverse.of_bytes {p : α → Prop} {bytes : α → Bytes}
    (puts : ∀ a, Writes (write a) (p a) (bytes a))
    (passes : ∀ {a} {c c' : Cursor}, read.on c = (.ok a, c') ↔ p a ∧ c.Passes (bytes a) c')
    (length : ∀ a, (bytes a).length = size a) : Inverse read write size where
  writes := by
    intro b a c taken
    obtain ⟨able, passed⟩ := passes.mp taken
    have offset : c.offset = (bytes a).length := by
      rw [passed.offset_eq, Cursor.offset_ofBytes, Nat.zero_add]
    obtain ⟨first, -⟩ := Cursor.eq_of_passes_ofBytes passed
    rw [offset, first]
    refine ⟨(length a).symm, fun buffer room => (puts a _ _).mpr ⟨able, ?_⟩⟩
    exact ⟨room.ge, by simp [Cursor.ofBytes, ← room], by simp [Cursor.ofBytes]⟩
  reads := by
    intro a e c c' behind written added
    obtain ⟨able, -, -, put⟩ := (puts a c c').mp written
    obtain rfl : e = bytes a := List.append_cancel_left (added.symm.trans put)
    exact passes.mpr ⟨able, Cursor.passes_ofBytes⟩

theorem Inverse.of_total {bytes : α → Bytes} (puts : ∀ a, Writes (write a) True (bytes a))
    (passes : ∀ {a} {c c' : Cursor}, read.on c = (.ok a, c') ↔ c.Passes (bytes a) c')
    (length : ∀ a, (bytes a).length = size a) : Inverse read write size := by
  refine of_bytes puts ?_ length
  intro a c c'
  rw [passes, true_and]

end CursorM

/-! ## The four codes -/

theorem Address.inverse : Inverse Address.read Address.write Address.size :=
  .of_bytes writes on_read_eq_ok length_bytes

theorem ShortString.inverse : Inverse ShortString.read ShortString.write ShortString.size :=
  .of_total writes on_read_eq_ok length_pieces

theorem Credentials.inverse : Inverse Credentials.read Credentials.write Credentials.size :=
  .of_total (fun d => .writeAll d.pieces) on_read_eq_ok length_pieces

theorem Verdict.inverse : Inverse Verdict.read Verdict.write fun _ => Verdict.size :=
  .of_total (fun success => .writeAll (pieces success)) on_read_eq_ok fun _ => rfl

/-! ## What is no name -/

/-- The action fails on this cursor exactly if `bad` holds, and then the value of the
field is refused. -/
def CursorM.Refuses {α : Type} (act : CursorM α) (c : Cursor) (field : String) (bad : Prop) :
    Prop :=
  ((∃ e c', act.on c = (.error e, c')) ↔ bad) ∧
    ∀ e c', act.on c = (.error e, c') → ∃ reason, e = .invalidField field reason

theorem CursorM.refuses_of_ok {α : Type} {act : CursorM α} {a : α} {c c' : Cursor} {field : String}
    {bad : Prop} (went : act.on c = (.ok a, c')) (good : ¬bad) : act.Refuses c field bad := by
  have goes (e : Error) (c'' : Cursor) : act.on c ≠ (.error e, c'') := by
    intro failed
    cases went.symm.trans failed
  refine ⟨iff_of_false ?_ good, fun e c'' failed => absurd failed (goes e c'')⟩
  rintro ⟨e, c'', failed⟩
  exact goes e c'' failed

namespace ShortString

variable {s : ShortString} {field : String}

theorem not_empty_or_zero (checked : s.checkName field = .ok ()) :
    ¬(s.bytes = [] ∨ 0 ∈ s.bytes) := by
  obtain ⟨full, nonzero⟩ := checkName_eq_ok.mp checked
  rintro (empty | zero)
  · exact full empty
  · exact nonzero 0 zero rfl

theorem checkName_eq_error {e : Error} (checked : s.checkName field = .error e) :
    (s.bytes = [] ∨ 0 ∈ s.bytes) ∧ ∃ reason, e = .invalidField field reason := by
  constructor
  · by_contra good
    obtain ⟨full, nonzero⟩ := not_or.mp good
    have named : s.checkName field = .ok () :=
      checkName_eq_ok.mpr ⟨full, fun b listed zero => nonzero (zero ▸ listed)⟩
    cases named.symm.trans checked
  · unfold checkName at checked
    split at checked
    · cases checked
      exact ⟨.empty, rfl⟩
    · split at checked
      · cases checked
        exact ⟨_, rfl⟩
      · cases checked

theorem refuses_of_checkName {α : Type} {act : CursorM α} {c : Cursor}
    (accepts : s.checkName field = .ok () → ∃ a c', act.on c = (.ok a, c'))
    (refuses : ∀ e, s.checkName field = .error e → ∃ c', act.on c = (.error e, c')) :
    act.Refuses c field (s.bytes = [] ∨ 0 ∈ s.bytes) := by
  rcases checked : s.checkName field with e | _
  · obtain ⟨bad, reason, rfl⟩ := checkName_eq_error checked
    obtain ⟨c', failed⟩ := refuses _ checked
    refine ⟨iff_of_true ⟨_, c', failed⟩ bad, ?_⟩
    intro e c'' again
    cases failed.symm.trans again
    exact ⟨reason, rfl⟩
  · obtain ⟨a, c', went⟩ := accepts checked
    exact refuses_of_ok went (not_empty_or_zero checked)

end ShortString

namespace Address

variable {name : ShortString} {e : Error} {c c' : Cursor}

/-- The tag of a domain that is refused is out. -/
theorem on_write_of_refused (refused : name.checkName "domain" = .error e)
    (puts : c.Puts [Coded.byte AddressType.domain] c') :
    (domain name).write.on c = (.error e, c') := by
  have tag := (Writes.writeU8 (Coded.byte AddressType.domain) c c').mpr ⟨trivial, puts⟩
  have stop : (CursorM.ofExcept (name.checkName "domain") >>= fun _ => name.write).on c' =
      (.error e, c') := by
    rw [refused]
    exact on_bind_of_error (on_throw e c')
  exact (on_bind_of_ok tag).trans stop

/-- A domain that is refused has been passed. -/
theorem on_read_of_refused (refused : name.checkName "domain" = .error e)
    (passed : c.Passes (domain name).bytes c') : Address.read.on c = (.error e, c') := by
  obtain ⟨c₁, tag, rest⟩ := Cursor.passes_append.mp passed
  rw [Address.read, on_bind_of_ok (on_readU8_eq_ok.mpr tag), Coded.ofCode?_byte]
  show (readPayload .domain).on c₁ = _
  rw [readPayload, on_bind_of_ok (ShortString.on_read_eq_ok.mpr rest), refused]
  exact on_bind_of_error (on_throw e c')

theorem refuses_write (a : Address) {c : Cursor} (room : a.size ≤ c.remaining) :
    a.write.Refuses c "domain"
      (∃ name, a = .domain name ∧ (name.bytes = [] ∨ 0 ∈ name.bytes)) := by
  rw [← length_bytes] at room
  obtain ⟨c', puts⟩ := Cursor.exists_puts room
  cases a with
  | ipv4 octets =>
      refine refuses_of_ok (((ipv4 octets).writes c c').mpr ⟨trivial, puts⟩) ?_
      rintro ⟨name, same, -⟩
      cases same
  | ipv6 octets =>
      refine refuses_of_ok (((ipv6 octets).writes c c').mpr ⟨trivial, puts⟩) ?_
      rintro ⟨name, same, -⟩
      cases same
  | domain name =>
      simp only [domain.injEq, exists_eq_left']
      obtain ⟨c₁, tag, -⟩ := Cursor.puts_append.mp puts
      exact ShortString.refuses_of_checkName
        (fun named => ⟨(), c', ((domain name).writes c c').mpr ⟨named, puts⟩⟩)
        fun e refused => ⟨c₁, on_write_of_refused refused tag⟩

theorem refuses_read (name : ShortString) {c c' : Cursor}
    (passed : c.Passes (domain name).bytes c') :
    Address.read.Refuses c "domain" (name.bytes = [] ∨ 0 ∈ name.bytes) :=
  ShortString.refuses_of_checkName
    (fun named => ⟨domain name, c', on_read_eq_ok.mpr ⟨named, passed⟩⟩)
    fun _ refused => ⟨c', on_read_of_refused refused passed⟩

end Address

/-- Addresses, short strings, credentials and verdicts are bijective codes.  Where there
is room, an address is refused by its writer exactly if it is a domain that is empty or
has a zero byte; and the bytes of exactly these domains are refused by the reader,
although none of them is missing. -/
theorem parts_inverse :
    Inverse Address.read Address.write Address.size ∧
    Inverse ShortString.read ShortString.write ShortString.size ∧
    Inverse Credentials.read Credentials.write Credentials.size ∧
    (Inverse Verdict.read Verdict.write fun _ => Verdict.size) ∧
    (∀ (a : Address) (c : Cursor), a.size ≤ c.remaining →
      a.write.Refuses c "domain"
        (∃ name, a = .domain name ∧ (name.bytes = [] ∨ 0 ∈ name.bytes))) ∧
    ∀ (name : ShortString) (behind : Bytes),
      Address.read.Refuses
        (.ofBytes ([3] ++ [UInt8.ofNat name.length] ++ name.bytes ++ behind)) "domain"
        (name.bytes = [] ∨ 0 ∈ name.bytes) := by
  refine ⟨Address.inverse, ShortString.inverse, Credentials.inverse, Verdict.inverse, ?_, ?_⟩
  · intro a c room
    exact a.refuses_write room
  · intro name behind
    have bytes : [3] ++ [UInt8.ofNat name.length] ++ name.bytes = (Address.domain name).bytes := by
      rw [Address.bytes, Address.payload, ShortString.pieces_flatten]
      rfl
    rw [bytes]
    exact Address.refuses_read name Cursor.passes_ofBytes

/-- A domain there and back, and one with a zero byte. -/
theorem parts_inverse_domain :
    let a : Address := .domain ⟨[97, 46, 98], by decide⟩
    let bad : ShortString := ⟨[97, 0], by decide⟩
    Address.read.on (.ofBytes [3, 3, 97, 46, 98, 9]) = (.ok a, ⟨#[3, 3, 97, 46, 98], [9]⟩) ∧
    a.write.on (.ofBytes [0, 0, 0, 0, 0]) = (.ok (), ⟨#[3, 3, 97, 46, 98], []⟩) ∧
    (∃ e c', (Address.domain bad).write.on (.ofBytes [0, 0, 0, 0, 0]) = (.error e, c')) ∧
    ∃ e c', Address.read.on (.ofBytes [3, 2, 97, 0, 9]) = (.error e, c') := by
  intro a bad
  obtain ⟨code, -, -, -, writing, reading⟩ := parts_inverse
  have written : a.write.on (.ofBytes [1, 2, 3, 4, 5]) =
      (.ok (), ⟨#[3, 3, 97, 46, 98], []⟩) := by rfl
  have read := code.reads a [3, 3, 97, 46, 98] _ _ [9] written rfl
  have zero : bad.bytes = [] ∨ 0 ∈ bad.bytes := by decide
  have room : (Address.domain bad).size ≤ (Cursor.ofBytes [0, 0, 0, 0, 0]).remaining := by decide
  exact ⟨read, (code.writes _ a _ read).2 [0, 0, 0, 0, 0] rfl,
    (writing _ _ room).1.mpr ⟨bad, rfl, zero⟩, (reading bad [9]).1.mpr zero⟩

end Socks6
