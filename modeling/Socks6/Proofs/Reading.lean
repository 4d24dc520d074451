/-
# Socks6.Proofs.Reading — which bytes a reader has taken

A reader that succeeds has moved its cursor over some bytes, and for nearly every
reader of this library its value says which: `Cursor.Passes c bs c'` is that
move, and a reader is described by one equivalence,

    act.on c = (.ok a, c') ↔ c.Passes (the bytes of a) c'

Read from the right it says that what was written is read back, wherever it
stands and whatever follows; read from the left, that nothing else reads as `a`.
Sequences of readers are described by sequences of moves, so the layers above
compose these equivalences and never look at a cursor again.
-/
import Mathlib
import Socks6.Cursor

namespace Socks6

/-! ## Numbers and their digits -/

namespace Bytes

theorem value_bigEndian (w n : Nat) : value (bigEndian w n) = n % 256 ^ w := by
  induction w generalizing n with
  | zero => simp [bigEndian, Nat.mod_one]
  | succ w ih =>
    have digit : (UInt8.ofNat n).toNat = n % 256 := by simp
    rw [bigEndian, value_concat, ih, digit, Nat.pow_succ, Nat.mul_comm (256 ^ w) 256, Nat.mod_mul]
    omega

theorem value_lt (bs : Bytes) : value bs < 256 ^ bs.length := by
  induction bs using List.reverseRecOn with
  | nil => simp
  | append_singleton bs b ih =>
      have digit := b.toNat_lt
      rw [value_concat, List.length_append, List.length_singleton, Nat.pow_succ]
      omega

/-- What was read is written again: a string of digits is the only one of its
length that spells its number. -/
theorem bigEndian_value (bs : Bytes) : bigEndian bs.length (value bs) = bs := by
  induction bs using List.reverseRecOn with
  | nil => rfl
  | append_singleton bs b ih =>
      have digit := b.toNat_lt
      have high : (value bs * 256 + b.toNat) / 256 = value bs := by omega
      have low : UInt8.ofNat (value bs * 256 + b.toNat) = b := by
        apply UInt8.toNat_inj.mp
        simp
      rw [value_concat, List.length_append, List.length_singleton, bigEndian, high, low, ih]

@[simp] theorem length_ofUInt16 (n : UInt16) : (ofUInt16 n).length = 2 :=
  length_bigEndian 2 n.toNat

@[simp] theorem length_ofUInt32 (n : UInt32) : (ofUInt32 n).length = 4 :=
  length_bigEndian 4 n.toNat

theorem value_ofUInt16 (n : UInt16) : value (ofUInt16 n) = n.toNat := by
  rw [ofUInt16, value_bigEndian]
  exact Nat.mod_eq_of_lt n.toNat_lt

theorem value_ofUInt32 (n : UInt32) : value (ofUInt32 n) = n.toNat := by
  rw [ofUInt32, value_bigEndian]
  exact Nat.mod_eq_of_lt n.toNat_lt

theorem ofUInt16_value {bs : Bytes} (h : bs.length = 2) :
    ofUInt16 (UInt16.ofNat (value bs)) = bs := by
  have small := value_lt bs
  rw [h] at small
  rw [ofUInt16, UInt16.toNat_ofNat_of_lt' small, ← h, bigEndian_value]

theorem ofUInt32_value {bs : Bytes} (h : bs.length = 4) :
    ofUInt32 (UInt32.ofNat (value bs)) = bs := by
  have small := value_lt bs
  rw [h] at small
  rw [ofUInt32, UInt32.toNat_ofNat_of_lt' small, ← h, bigEndian_value]

end Bytes

theorem Coded.byte_of_ofCode? {α : Type} [Coded α] {b : UInt8} {a : α}
    (h : ofCode? α b.toNat = some a) : byte a = b := by
  rw [byte, code_of_ofCode? h, UInt8.ofNat_toNat]

/-! ## Moves of a cursor -/

namespace Cursor

/-- The second cursor stands behind `bs`, in the same buffer. -/
def Passes (c : Cursor) (bs : Bytes) (c' : Cursor) : Prop :=
  c.rest = bs ++ c'.rest ∧ c'.passed.toList = c.passed.toList ++ bs

theorem eq_of_toList {c c' : Cursor} (hp : c.passed.toList = c'.passed.toList)
    (hr : c.rest = c'.rest) : c = c' := by
  cases c
  cases c'
  simp_all [Array.toList_inj]

theorem passes_nil {c c' : Cursor} : c.Passes [] c' ↔ c = c' := by
  constructor
  · intro h
    obtain ⟨hr, hp⟩ := h
    exact eq_of_toList (by simpa using hp.symm) hr
  · rintro rfl
    exact ⟨rfl, by simp⟩

theorem passes_append {c c'' : Cursor} {as bs : Bytes} :
    c.Passes (as ++ bs) c'' ↔ ∃ c', c.Passes as c' ∧ c'.Passes bs c'' := by
  constructor
  · intro h
    obtain ⟨hr, hp⟩ := h
    exact ⟨⟨c.passed ++ as, bs ++ c''.rest⟩, ⟨by simpa using hr, by simp⟩, rfl, by simpa using hp⟩
  · intro h
    obtain ⟨c', ⟨hr, hp⟩, hr', hp'⟩ := h
    exact ⟨by rw [hr, hr', List.append_assoc], by rw [hp', hp, List.append_assoc]⟩

theorem passes_ofBytes {as bs : Bytes} :
    (ofBytes (as ++ bs)).Passes as ⟨as.toArray, bs⟩ :=
  ⟨rfl, by simp [ofBytes]⟩

theorem eq_of_passes_ofBytes {b bs : Bytes} {c : Cursor} (h : (ofBytes b).Passes bs c) :
    b.take bs.length = bs ∧ c = ⟨bs.toArray, b.drop bs.length⟩ := by
  obtain ⟨hr, hp⟩ := h
  have whole : b = bs ++ c.rest := hr
  rw [whole, List.take_left, List.drop_left]
  exact ⟨rfl, eq_of_toList (by simpa [ofBytes] using hp) rfl⟩

theorem Passes.offset_eq {c c' : Cursor} {bs : Bytes} (h : c.Passes bs c') :
    c'.offset = c.offset + bs.length := by
  simpa [offset] using congrArg List.length h.2

theorem Passes.buffer_eq {c c' : Cursor} {bs : Bytes} (h : c.Passes bs c') :
    c'.buffer = c.buffer := by
  rw [buffer, buffer, h.1, h.2, List.append_assoc]

theorem passes_advance (c : Cursor) (n : Nat) : c.Passes (c.rest.take n) (c.advance n) :=
  ⟨by simp [advance], by simp [advance]⟩

theorem offset_advance {c : Cursor} {n : Nat} (room : n ≤ c.remaining) :
    (c.advance n).offset = c.offset + n := by
  rw [(c.passes_advance n).offset_eq, List.length_take_of_le room]

@[simp] theorem length_advance (c : Cursor) (n : Nat) : (c.advance n).length = c.length := by
  rw [← length_buffer, buffer_advance, length_buffer]

end Cursor

/-! ## The readers of a cursor -/

namespace CursorM

variable {α β : Type}

theorem on_bind_eq_ok {x : CursorM α} {f : α → CursorM β} {c c'' : Cursor} {b : β} :
    (x >>= f).on c = (.ok b, c'') ↔
      ∃ a c', x.on c = (.ok a, c') ∧ (f a).on c' = (.ok b, c'') := by
  rw [on_bind]
  rcases x.on c with ⟨_ | a, c'⟩
  · simp
  · constructor
    · intro h
      exact ⟨a, c', rfl, h⟩
    · intro taken
      obtain ⟨_, _, h, hf⟩ := taken
      cases h
      exact hf

theorem on_bind_of_ok {x : CursorM α} {f : α → CursorM β} {a : α} {c c' : Cursor}
    (h : x.on c = (.ok a, c')) : (x >>= f).on c = (f a).on c' := by
  rw [on_bind, h]

theorem on_bind_of_error {x : CursorM α} {f : α → CursorM β} {e : Error} {c c' : Cursor}
    (h : x.on c = (.error e, c')) : (x >>= f).on c = (.error e, c') := by
  rw [on_bind, h]

theorem on_pure_eq_ok {a b : α} {c c' : Cursor} :
    (pure a : CursorM α).on c = (.ok b, c') ↔ a = b ∧ c = c' := by
  simp

theorem on_throw_eq_ok {e : Error} {b : α} {c c' : Cursor} :
    (throw e : CursorM α).on c = (.ok b, c') ↔ False := by
  simp

theorem on_ofExcept_eq_ok {r : Except Error α} {a : α} {c c' : Cursor} :
    (ofExcept r).on c = (.ok a, c') ↔ r = .ok a ∧ c = c' := by
  cases r <;> simp [ofExcept]

theorem on_read (n : Nat) (c : Cursor) :
    (read n).on c =
      match c.next? n with
      | some bytes => (.ok bytes, c.advance n)
      | none => (.error (c.shortage .read n), c) :=
  rfl

theorem on_read_of_le {n : Nat} {c : Cursor} (room : n ≤ c.remaining) :
    (read n).on c = (.ok ⟨c.rest.take n, List.length_take_of_le room⟩, c.advance n) := by
  rw [on_read, Cursor.next?_of_le room]

theorem on_read_of_lt {n : Nat} {c : Cursor} (few : c.remaining < n) :
    (read n).on c = (.error (c.shortage .read n), c) := by
  rw [on_read, Cursor.next?_eq_none_iff.mpr few]

theorem on_read_eq_ok {n : Nat} {bs : Octets n} {c c' : Cursor} :
    (read n).on c = (.ok bs, c') ↔ c.Passes bs.val c' := by
  rw [on_read]
  constructor
  · intro h
    split at h
    · rename_i bytes next
      obtain ⟨behind, hb⟩ := Cursor.next?_eq_some_iff.mp next
      cases h
      exact ⟨by simp [Cursor.advance, hb, bs.property], by simp [Cursor.advance, hb, bs.property]⟩
    · cases h
  · intro h
    have next : c.next? n = some bs := Cursor.next?_eq_some_iff.mpr ⟨_, h.1⟩
    rw [next]
    refine congrArg (Prod.mk _) (Cursor.eq_of_toList ?_ ?_)
    · simp [Cursor.advance, h.1, h.2, bs.property]
    · simp [Cursor.advance, h.1, bs.property]

theorem on_peek (n : Nat) (c : Cursor) :
    (peek n).on c =
      match c.next? n with
      | some bytes => (.ok bytes, c)
      | none => (.error (c.shortage .peek n), c) :=
  rfl

theorem on_peek_of_le {n : Nat} {c : Cursor} (room : n ≤ c.remaining) :
    (peek n).on c = (.ok ⟨c.rest.take n, List.length_take_of_le room⟩, c) := by
  rw [on_peek, Cursor.next?_of_le room]

theorem on_peek_of_lt {n : Nat} {c : Cursor} (few : c.remaining < n) :
    (peek n).on c = (.error (c.shortage .peek n), c) := by
  rw [on_peek, Cursor.next?_eq_none_iff.mpr few]

theorem on_skip (n : Nat) (c : Cursor) :
    (skip n).on c =
      match c.next? n with
      | some _ => (.ok (), c.advance n)
      | none => (.error (c.shortage .skip n), c) :=
  rfl

theorem on_skip_of_le {n : Nat} {c : Cursor} (room : n ≤ c.remaining) :
    (skip n).on c = (.ok (), c.advance n) := by
  rw [on_skip, Cursor.next?_of_le room]

theorem on_skip_of_lt {n : Nat} {c : Cursor} (few : c.remaining < n) :
    (skip n).on c = (.error (c.shortage .skip n), c) := by
  rw [on_skip, Cursor.next?_eq_none_iff.mpr few]

/-- A number read off `w` bytes passes its own digits, if `encode` and `decode`
are the two directions between numbers and strings of that length. -/
theorem on_readNumber_eq_ok {w : Nat} (decode : Bytes → α) (encode : α → Bytes)
    (width : ∀ n, (encode n).length = w) (left : ∀ n, decode (encode n) = n)
    (right : ∀ bs : Bytes, bs.length = w → encode (decode bs) = bs) {c c' : Cursor} {n : α} :
    (return decode (← read w).val : CursorM α).on c = (.ok n, c') ↔ c.Passes (encode n) c' := by
  simp only [on_bind_eq_ok, on_pure_eq_ok, on_read_eq_ok]
  constructor
  · intro taken
    obtain ⟨bs, _, h, rfl, rfl⟩ := taken
    rwa [right bs.val bs.property]
  · intro h
    exact ⟨⟨encode n, width n⟩, c', h, left n, rfl⟩

theorem on_readU8_eq_ok {n : UInt8} {c c' : Cursor} :
    readU8.on c = (.ok n, c') ↔ c.Passes [n] c' := by
  refine on_readNumber_eq_ok (fun bs => UInt8.ofNat bs.value) (fun n => [n]) (fun _ => rfl) ?_ ?_
  · intro n
    simp [Bytes.value]
  · intro bs h
    obtain ⟨b, rfl⟩ := List.length_eq_one_iff.mp h
    simp [Bytes.value]

theorem on_readU16_eq_ok {n : UInt16} {c c' : Cursor} :
    readU16.on c = (.ok n, c') ↔ c.Passes (Bytes.ofUInt16 n) c' := by
  refine on_readNumber_eq_ok (fun bs => UInt16.ofNat bs.value) Bytes.ofUInt16
    Bytes.length_ofUInt16 ?_ (fun _ h => Bytes.ofUInt16_value h)
  intro n
  simp [Bytes.value_ofUInt16]

theorem on_readU32_eq_ok {n : UInt32} {c c' : Cursor} :
    readU32.on c = (.ok n, c') ↔ c.Passes (Bytes.ofUInt32 n) c' := by
  refine on_readNumber_eq_ok (fun bs => UInt32.ofNat bs.value) Bytes.ofUInt32
    Bytes.length_ofUInt32 ?_ (fun _ h => Bytes.ofUInt32_value h)
  intro n
  simp [Bytes.value_ofUInt32]

theorem on_readRest {c : Cursor} : readRest.on c = (.ok c.rest, c.advance c.remaining) := rfl

theorem on_readCoded_eq_ok [Coded α] {field : String} {a : α} {c c' : Cursor} :
    (readCoded α field).on c = (.ok a, c') ↔ c.Passes [Coded.byte a] c' := by
  simp only [readCoded, on_bind_eq_ok, on_readU8_eq_ok]
  constructor
  · intro taken
    obtain ⟨byte, c₁, h, found⟩ := taken
    split at found
    · rename_i lookup
      obtain ⟨rfl, rfl⟩ := on_pure_eq_ok.mp found
      rwa [Coded.byte_of_ofCode? lookup]
    · exact (on_throw_eq_ok.mp found).elim
  · intro h
    refine ⟨Coded.byte a, c', h, ?_⟩
    rw [Coded.ofCode?_byte]
    exact on_pure _ _

end CursorM

end Socks6
