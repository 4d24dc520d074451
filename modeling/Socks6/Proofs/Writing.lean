/-
# Socks6.Proofs.Writing — which bytes a writer has put

`Cursor.Puts c bs c'` is the move of a cursor that overwrites: `bs` stand where as
many other bytes stood.  `CursorM.Writes act p bs` describes a writer by it, for
every buffer at once: it succeeds just where there is room for `bs` and the
condition `p` holds, and then it has put `bs` and nothing else.  The condition is
the part of the answer that no buffer can change: a name that is none, a record
too long for its header.
-/
import Socks6.Proofs.Reading

namespace Socks6

namespace Cursor

/-- The second cursor stands behind `bs`, which took the place of as many bytes. -/
def Puts (c : Cursor) (bs : Bytes) (c' : Cursor) : Prop :=
  bs.length ≤ c.rest.length ∧ c'.rest = c.rest.drop bs.length ∧
    c'.passed.toList = c.passed.toList ++ bs

theorem puts_nil {c c' : Cursor} : c.Puts [] c' ↔ c = c' := by
  constructor
  · intro h
    obtain ⟨-, hr, hp⟩ := h
    exact eq_of_toList (by simpa using hp.symm) (by simpa using hr.symm)
  · rintro rfl
    exact ⟨Nat.zero_le _, rfl, by simp⟩

theorem puts_append {c c'' : Cursor} {as bs : Bytes} :
    c.Puts (as ++ bs) c'' ↔ ∃ c', c.Puts as c' ∧ c'.Puts bs c'' := by
  constructor
  · intro h
    obtain ⟨room, hr, hp⟩ := h
    rw [List.length_append] at room hr
    refine ⟨⟨c.passed ++ as, c.rest.drop as.length⟩, ⟨by omega, rfl, by simp⟩, ?_, ?_, ?_⟩
    · simp only [List.length_drop]
      omega
    · simpa using hr
    · simpa using hp
  · intro h
    obtain ⟨c', ⟨room, hr, hp⟩, room', hr', hp'⟩ := h
    rw [hr, List.length_drop] at room'
    refine ⟨?_, ?_, ?_⟩
    · rw [List.length_append]
      omega
    · rw [hr', hr, List.drop_drop, List.length_append]
    · rw [hp', hp, List.append_assoc]

theorem Puts.offset_eq {c c' : Cursor} {bs : Bytes} (h : c.Puts bs c') :
    c'.offset = c.offset + bs.length := by
  simpa [offset] using congrArg List.length h.2.2

theorem Puts.offset_ofBytes {b bs : Bytes} {c : Cursor} (h : (ofBytes b).Puts bs c) :
    c.offset = bs.length := by
  rw [h.offset_eq, Cursor.offset_ofBytes, Nat.zero_add]

theorem Puts.buffer_ofBytes {b bs : Bytes} {c : Cursor} (h : (ofBytes b).Puts bs c) :
    c.buffer = bs ++ b.drop bs.length := by
  obtain ⟨-, hr, hp⟩ := h
  rw [buffer, hp, hr]
  rfl

/-- A buffer of just the right size holds what was put and nothing else. -/
theorem Puts.buffer_eq {b bs : Bytes} {c : Cursor} (h : (ofBytes b).Puts bs c)
    (size : b.length = bs.length) : c.buffer = bs := by
  rw [h.buffer_ofBytes, ← size, List.drop_length, List.append_nil]

theorem Puts.length_eq {c c' : Cursor} {bs : Bytes} (h : c.Puts bs c') :
    c'.length = c.length := by
  have moved := h.offset_eq
  obtain ⟨room, hr, -⟩ := h
  rw [length, moved, remaining, hr, List.length_drop, length, remaining]
  omega

theorem puts_overwrite {c : Cursor} {bs : Bytes} (room : bs.length ≤ c.rest.length) :
    c.Puts bs (c.overwrite bs) :=
  ⟨room, rfl, by simp [overwrite]⟩

theorem exists_puts {c : Cursor} {bs : Bytes} (room : bs.length ≤ c.rest.length) :
    ∃ c', c.Puts bs c' :=
  ⟨_, puts_overwrite room⟩

theorem buffer_overwrite (c : Cursor) (bs : Bytes) :
    (c.overwrite bs).buffer =
      c.buffer.take c.offset ++ bs ++ c.buffer.drop (c.offset + bs.length) := by
  simp [buffer, overwrite, offset, List.drop_append]

end Cursor

namespace CursorM

/-! ## A single access, all or nothing -/

section Write

variable {bs : Bytes} {c : Cursor}

theorem on_write (bs : Bytes) (c : Cursor) :
    (write bs).on c =
      match c.next? bs.length with
      | some _ => (.ok (), c.overwrite bs)
      | none => (.error (c.shortage .write bs.length), c) :=
  rfl

theorem on_write_of_le (room : bs.length ≤ c.rest.length) :
    (write bs).on c = (.ok (), c.overwrite bs) := by
  rw [on_write, Cursor.next?_of_le room]

theorem on_write_of_lt (few : c.rest.length < bs.length) :
    (write bs).on c = (.error (c.shortage .write bs.length), c) := by
  rw [on_write, Cursor.next?_eq_none_iff.mpr few]

theorem writeZeros_eq (n : Nat) : writeZeros n = write (List.replicate n 0) := by
  have size : (List.replicate n (0 : UInt8)).length = n := List.length_replicate
  funext c
  by_cases room : n ≤ c.rest.length
  · have next := Cursor.next?_of_le room
    have next' := Cursor.next?_of_le (size.trans_le room)
    simp only [writeZeros, write, next, next']
  · have few : c.remaining < n := Nat.lt_of_not_le room
    have none := Cursor.next?_eq_none_iff.mpr few
    have none' := Cursor.next?_eq_none_iff.mpr (few.trans_eq size.symm)
    simp only [writeZeros, write, none, none', size]

end Write

/-! ## Writers -/

/-- If `p` holds and there is room, the action writes `bs`; else it fails. -/
def Writes (act : CursorM Unit) (p : Prop) (bs : Bytes) : Prop :=
  ∀ c c' : Cursor, act.on c = (.ok (), c') ↔ p ∧ c.Puts bs c'

namespace Writes

variable {x y : CursorM Unit} {p q : Prop} {as bs : Bytes}

theorem congr (h : Writes x p bs) (condition : p ↔ q) : Writes x q bs :=
  fun c c' => (h c c').trans (and_congr_left fun _ => condition)

theorem nothing : Writes (pure ()) True [] := by
  intro c c'
  rw [on_pure, Cursor.puts_nil]
  simp

theorem seq (hx : Writes x p as) (hy : Writes y q bs) :
    Writes (x >>= fun _ => y) (p ∧ q) (as ++ bs) := by
  intro c c''
  rw [on_bind_eq_ok, Cursor.puts_append]
  constructor
  · intro h
    obtain ⟨_, c', first, second⟩ := h
    obtain ⟨hp, puts⟩ := (hx c c').mp first
    obtain ⟨hq, puts'⟩ := (hy c' c'').mp second
    exact ⟨⟨hp, hq⟩, c', puts, puts'⟩
  · intro h
    obtain ⟨⟨hp, hq⟩, c', puts, puts'⟩ := h
    exact ⟨(), c', (hx c c').mpr ⟨hp, puts⟩, (hy c' c'').mpr ⟨hq, puts'⟩⟩

/-- A writer behind one that always writes has its own condition. -/
theorem andThen (hx : Writes x True as) (hy : Writes y q bs) :
    Writes (x >>= fun _ => y) q (as ++ bs) :=
  (hx.seq hy).congr (iff_of_eq (true_and q))

theorem check {r : Except Error Unit} (hy : Writes y q bs) :
    Writes (ofExcept r >>= fun _ => y) (r = .ok () ∧ q) bs := by
  intro c c'
  cases r with
  | ok => rw [ofExcept]; simpa using hy c c'
  | error e => rw [ofExcept, on_bind_eq_ok]; simp

theorem refuseIf {k : Unit → CursorM Unit} (hy : ∀ u, Writes (k u) q bs) (bad : Prop)
    [Decidable bad] (e : Error) :
    Writes (if bad then (MonadExcept.throw e : CursorM Unit) >>= k else k ()) (¬bad ∧ q) bs := by
  intro c c'
  by_cases h : bad
  · rw [if_pos h, on_bind_eq_ok]
    simp [h]
  · rw [if_neg h]
    simpa [h] using hy () c c'

theorem write (bs : Bytes) : Writes (write bs) True bs := by
  intro c c'
  by_cases room : bs.length ≤ c.rest.length
  · rw [on_write_of_le room]
    constructor
    · intro h
      cases h
      exact ⟨trivial, room, rfl, by simp [Cursor.overwrite]⟩
    · intro taken
      obtain ⟨-, -, hr, hp⟩ := taken
      refine congrArg (Prod.mk _) (Cursor.eq_of_toList ?_ hr.symm)
      simp [Cursor.overwrite, hp]
  · rw [on_write_of_lt (Nat.lt_of_not_le room)]
    constructor
    · intro h
      cases h
    · intro taken
      obtain ⟨-, room', -⟩ := taken
      exact absurd room' room

theorem writeU8 (n : UInt8) : Writes (writeU8 n) True [n] := write [n]

theorem writeU16 (n : UInt16) : Writes (writeU16 n) True (Bytes.ofUInt16 n) := write _

theorem writeZeros (n : Nat) : Writes (writeZeros n) True (List.replicate n 0) := by
  rw [writeZeros_eq]
  exact write _

theorem writeAll (pieces : List Bytes) : Writes (writeAll pieces) True pieces.flatten := by
  induction pieces with
  | nil => exact nothing
  | cons piece pieces ih => exact (write piece).andThen ih

/-- Written into a buffer of just the right size. -/
theorem filling_eq_ok (h : Writes x p bs) {b : Bytes} :
    x.filling bs.length = .ok b ↔ p ∧ b = bs := by
  rw [filling]
  have room : bs.length ≤ (Cursor.ofBytes (List.replicate bs.length 0)).rest.length := by
    simp [Cursor.ofBytes]
  rcases hr : x.on (.ofBytes (List.replicate bs.length 0)) with ⟨e | _, c⟩
  · obtain ⟨c', puts⟩ := Cursor.exists_puts room
    constructor
    · intro h
      cases h
    · intro taken
      obtain ⟨hp, -⟩ := taken
      rw [(h _ c').mpr ⟨hp, puts⟩] at hr
      cases hr
  · obtain ⟨hp, puts⟩ := (h _ c).mp hr
    have filled := puts.buffer_eq (by simp)
    constructor
    · intro eq
      cases eq
      exact ⟨hp, filled⟩
    · intro taken
      obtain ⟨-, rfl⟩ := taken
      exact congrArg Except.ok filled

end Writes

/-! ## A number that is filled in last -/

theorem on_reserve_eq_ok {c c' : Cursor} {position : Nat} :
    reserve.on c = (.ok position, c') ↔ position = c.offset ∧ c.Puts [0, 0] c' := by
  have zeros : Bytes.ofUInt16 0 = [0, 0] := rfl
  rw [reserve, on_bind_eq_ok]
  constructor
  · intro taken
    obtain ⟨_, _, h, h'⟩ := taken
    cases h
    obtain ⟨_, _, written, h''⟩ := on_bind_eq_ok.mp h'
    cases h''
    exact ⟨rfl, ((Writes.writeU16 0 _ _).mp written).2⟩
  · intro taken
    obtain ⟨rfl, puts⟩ := taken
    refine ⟨c.offset, c, rfl, on_bind_eq_ok.mpr ⟨(), c', ?_, rfl⟩⟩
    exact (Writes.writeU16 0 _ _).mpr ⟨trivial, puts⟩

/-- Filling the two reserved bytes in gives what writing the number at once
would have given. -/
theorem on_patch_eq_ok {c c₁ c₂ : Cursor} {bs : Bytes} (n : UInt16)
    (reserved : c.Puts ([0, 0] ++ bs) c₁) :
    (patch c.offset n).on c₁ = (.ok (), c₂) ↔ c.Puts (Bytes.ofUInt16 n ++ bs) c₂ := by
  obtain ⟨room, hr, hp⟩ := reserved
  have digits : Bytes.ofUInt16 n = [UInt8.ofNat (n.toNat / 256), UInt8.ofNat n.toNat] := rfl
  have behind : c.offset + 2 ≤ c₁.offset := by
    have size := congrArg List.length hp
    simp only [Array.length_toList, List.length_append, List.length_cons] at size
    simp only [Cursor.offset]
    omega
  have set : ((c₁.passed.setIfInBounds c.offset (UInt8.ofNat (n.toNat / 256))).setIfInBounds
      (c.offset + 1) (UInt8.ofNat n.toNat)).toList
      = c.passed.toList ++ (Bytes.ofUInt16 n ++ bs) := by
    rw [Array.toList_setIfInBounds, Array.toList_setIfInBounds, hp, digits, Cursor.offset,
      ← Array.length_toList]
    simp
  have size : ([0, 0] ++ bs).length = (Bytes.ofUInt16 n ++ bs).length := by
    rw [List.length_append, List.length_append, Bytes.length_ofUInt16]
    rfl
  rw [size] at room hr
  change (if c.offset + 2 ≤ c₁.offset then _ else _) = _ ↔ _
  rw [if_pos behind]
  constructor
  · intro h
    cases h
    exact ⟨room, hr, set⟩
  · intro taken
    obtain ⟨-, hr', hp'⟩ := taken
    exact congrArg (Prod.mk _) (Cursor.eq_of_toList (set.trans hp'.symm) (hr.trans hr'.symm))

theorem exists_pair_at {bs : Bytes} {position : Nat} (inside : position + 2 ≤ bs.length) :
    ∃ before a b after, before.length = position ∧ bs = before ++ a :: b :: after := by
  refine ⟨bs.take position, bs[position], bs[position + 1], bs.drop (position + 2),
    List.length_take_of_le (by omega), ?_⟩
  rw [← List.drop_eq_getElem_cons, ← List.drop_eq_getElem_cons, List.take_append_drop]

theorem on_patch_of_le {c : Cursor} {position : Nat} (n : UInt16)
    (passed : position + 2 ≤ c.offset) :
    ∃ c', (patch position n).on c = (.ok (), c') ∧ c'.offset = c.offset ∧ c'.length = c.length ∧
      c'.buffer = c.buffer.take position ++ Bytes.ofUInt16 n ++ c.buffer.drop (position + 2) := by
  have inside : position + 2 ≤ c.passed.toList.length := passed
  obtain ⟨before, a, b, after, rfl, split⟩ := exists_pair_at inside
  have digits : Bytes.ofUInt16 n = [UInt8.ofNat (n.toNat / 256), UInt8.ofNat n.toNat] := rfl
  refine ⟨_, if_pos passed, ?_, ?_, ?_⟩
  · simp [Cursor.offset]
  · simp [Cursor.length, Cursor.offset, Cursor.remaining]
  · rw [Cursor.buffer, Cursor.buffer, Array.toList_setIfInBounds, Array.toList_setIfInBounds,
      split, digits]
    simp [List.drop_append]

theorem on_patch_of_lt {c : Cursor} {position : Nat} (n : UInt16)
    (ahead : c.offset < position + 2) :
    (patch position n).on c = (.error (.truncated 2 (c.offset - position) (.patch position)), c) :=
  if_neg (Nat.not_le_of_lt ahead)

end CursorM

end Socks6
