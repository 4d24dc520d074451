/-
# Socks6.Proofs.Incremental — a reader that has decided does not change its mind

Bytes arrive in pieces, and a caller who has only some of them tries to read what
there is.  That is sound for a reader with two properties: an answer other than
"too few bytes" — a value or a refusal — is the answer on every longer input
too, and the cursor stops at the same place; and as long as bytes of a readable
value are missing, "too few bytes" is what is said.

The second property follows from the first for every reader that only moves
forward through its buffer, so the two facts proved by composition are those of
`CursorM.Streaming`.  The option block is no exception although it is searched
for damage: it is taken off the input whole before anything in it is looked at.
-/
import Socks6.Message
import Socks6.Proofs.Reading

namespace Socks6

namespace Cursor

/-- The cursor in a buffer that goes on with `more`. -/
def extend (c : Cursor) (more : Bytes) : Cursor := ⟨c.passed, c.rest ++ more⟩

/-- The cursor in a buffer that ends `n` bytes behind it. -/
def cut (c : Cursor) (n : Nat) : Cursor := ⟨c.passed, c.rest.take n⟩

theorem cut_extend (c : Cursor) (n : Nat) : (c.cut n).extend (c.rest.drop n) = c := by
  simp [cut, extend]

theorem Passes.extend {c c' : Cursor} {bs : Bytes} (h : c.Passes bs c') (more : Bytes) :
    (c.extend more).Passes bs (c'.extend more) :=
  ⟨by simp [Cursor.extend, h.1], h.2⟩

end Cursor

/-- The answer is that bytes are missing. -/
def RanShort {α : Type} : Except Error α → Prop
  | .ok _ => False
  | .error e => e.isTruncated = true

namespace CursorM

variable {α β : Type}

/-- What a caller relies on who reads while bytes still arrive. -/
structure Incremental (act : CursorM α) : Prop where
  /-- More bytes change neither the answer nor the position, unless the answer
  was that bytes are missing. -/
  settled : ∀ (c : Cursor) (more : Bytes), ¬ RanShort (act.on c).1 →
    act.on (c.extend more) = ((act.on c).1, (act.on c).2.extend more)
  /-- While bytes of an accepted value are missing, the answer is that they are. -/
  waits : ∀ (c c' : Cursor) (a : α), act.on c = (.ok a, c') →
    ∀ n < c'.offset - c.offset, RanShort (act.on (c.cut n)).1

/-- The action moves forward through its buffer, and what lies behind the bytes
it asks for has no influence on it. -/
structure Streaming (act : CursorM α) : Prop where
  forward : ∀ c : Cursor, ∃ bs, c.Passes bs (act.on c).2
  settled : ∀ (c : Cursor) (more : Bytes), ¬ RanShort (act.on c).1 →
    act.on (c.extend more) = ((act.on c).1, (act.on c).2.extend more)

namespace Streaming

/-- Were a shorter input settled, the whole input would be settled at the same
position, which lies beyond the shorter one. -/
theorem incremental {act : CursorM α} (h : Streaming act) : Incremental act where
  settled := h.settled
  waits := by
    intro c c' a read n few
    by_cases short : RanShort (act.on (c.cut n)).1
    · exact short
    · have same := h.settled (c.cut n) (c.rest.drop n) short
      rw [Cursor.cut_extend, read] at same
      obtain ⟨bs, moved⟩ := h.forward (c.cut n)
      have stop : c'.offset = (act.on (c.cut n)).2.offset := by
        rw [(Prod.mk.inj same).2]
        rfl
      have within : bs.length ≤ n := by
        have whole := congrArg List.length moved.1
        simp only [Cursor.cut, List.length_take, List.length_append] at whole
        omega
      have reached : (act.on (c.cut n)).2.offset = c.offset + bs.length := moved.offset_eq
      omega

theorem pure (a : α) : Streaming (pure a : CursorM α) where
  forward := fun _ => ⟨[], Cursor.passes_nil.mpr rfl⟩
  settled := fun _ _ _ => rfl

theorem throw (e : Error) : Streaming (throw e : CursorM α) where
  forward := fun _ => ⟨[], Cursor.passes_nil.mpr rfl⟩
  settled := fun _ _ _ => rfl

theorem ofExcept (r : Except Error α) : Streaming (ofExcept r) := by
  cases r with
  | ok a => exact pure a
  | error e => exact throw e

theorem bind {x : CursorM α} {f : α → CursorM β} (hx : Streaming x) (hf : ∀ a, Streaming (f a)) :
    Streaming (x >>= f) where
  forward := by
    intro c
    obtain ⟨as, first⟩ := hx.forward c
    rw [on_bind]
    rcases hr : x.on c with ⟨e | a, c'⟩
    · rw [hr] at first
      exact ⟨as, first⟩
    · rw [hr] at first
      obtain ⟨bs, second⟩ := (hf a).forward c'
      exact ⟨as ++ bs, Cursor.passes_append.mpr ⟨c', first, second⟩⟩
  settled := by
    intro c more
    have first := hx.settled c more
    rw [on_bind, on_bind]
    rcases hr : x.on c with ⟨e | a, c'⟩
    · rw [hr] at first
      intro settled
      rw [first settled]
    · rw [hr] at first
      rw [first not_false]
      exact (hf a).settled c' more

theorem offset : Streaming CursorM.offset where
  forward := fun _ => ⟨[], Cursor.passes_nil.mpr rfl⟩
  settled := fun _ _ _ => rfl

theorem read (n : Nat) : Streaming (read n) where
  forward := by
    intro c
    rw [on_read]
    cases next : c.next? n with
    | some bs =>
        obtain ⟨behind, hb⟩ := Cursor.next?_eq_some_iff.mp next
        exact ⟨bs.val, by simp [Cursor.advance, hb, bs.property],
          by simp [Cursor.advance, hb, bs.property]⟩
    | none => exact ⟨[], Cursor.passes_nil.mpr rfl⟩
  settled := by
    intro c more
    rcases hr : (CursorM.read n).on c with ⟨e | bs, c'⟩
    · -- the only refusal of a reading is that bytes are missing
      rw [on_read] at hr
      intro settled
      refine absurd ?_ settled
      split at hr
      · cases hr
      · cases hr
        rfl
    · intro _
      exact on_read_eq_ok.mpr ((on_read_eq_ok.mp hr).extend more)

theorem readU8 : Streaming readU8 := bind (read 1) fun _ => pure _

theorem readU16 : Streaming readU16 := bind (read 2) fun _ => pure _

theorem readCoded [Coded α] (field : String) : Streaming (readCoded α field) := by
  refine bind readU8 fun byte => ?_
  split
  · exact pure _
  · exact throw _

end Streaming

end CursorM

/-! ## The readers of the library, part by part -/

open CursorM

theorem Version.streaming_read : Streaming Version.read := by
  refine .bind (.read 2) fun pair => ?_
  dsimp only
  split
  · exact .pure _
  · exact .throw _

theorem ShortString.streaming_read : Streaming ShortString.read :=
  .bind .readU8 fun _ => .bind (.read _) fun _ => .pure _

theorem Address.streaming_readPayload (type : AddressType) : Streaming (readPayload type) := by
  cases type with
  | ipv4 => exact .bind (.read 4) fun _ => .pure _
  | ipv6 => exact .bind (.read 16) fun _ => .pure _
  | domain =>
      exact .bind ShortString.streaming_read fun _ => .bind (.ofExcept _) fun _ => .pure _

theorem Address.streaming_read : Streaming Address.read := by
  refine .bind .readU8 fun tag => ?_
  split
  · exact streaming_readPayload _
  · exact .throw _

theorem Subnegotiation.streaming_checkVersion (message : String) :
    Streaming (checkVersion message) := by
  refine .bind .readU8 fun found => ?_
  split
  · exact .pure _
  · exact .throw _

theorem Credentials.streaming_read : Streaming Credentials.read :=
  .bind (Subnegotiation.streaming_checkVersion _) fun _ =>
    .bind ShortString.streaming_read fun _ => .bind ShortString.streaming_read fun _ => .pure _

theorem Verdict.streaming_read : Streaming Verdict.read := by
  refine .bind (Subnegotiation.streaming_checkVersion _) fun _ => .bind .readU8 fun found => ?_
  split
  · exact .pure _
  · split
    · exact .pure _
    · exact .throw _

theorem Head.streaming_read (mode : Mode) : Streaming (Head.read mode) := by
  refine .bind Version.streaming_read fun _ => ?_
  cases mode with
  | request =>
      exact .bind (.readCoded _) fun _ => .bind .readU16 fun _ =>
        .bind Address.streaming_read fun _ => .pure _
  | authReply => exact .bind (.readCoded _) fun _ => .bind .readU8 fun _ => .pure _
  | operationReply =>
      exact .bind (.readCoded _) fun _ => .bind .readU16 fun _ => .bind .readU16 fun _ =>
        .bind Address.streaming_read fun _ => .pure _

theorem OptionSet.streaming_read (mode : Mode) (policy : Policy) :
    Streaming (OptionSet.read mode policy) :=
  .bind .readU16 fun _ => .bind (.read _) fun _ => .pure _

theorem Message.streaming_read (mode : Mode) (policy : Policy) :
    Streaming (Message.read mode policy) := by
  refine .bind ?_ fun _ => .pure _
  exact .bind (Head.streaming_read mode) fun _ => .bind (OptionSet.streaming_read mode policy)
    fun _ => .bind (.ofExcept _) fun _ => .bind .offset fun _ => .pure _

/-- Every reader of a whole value can be tried while its bytes still arrive: the
three envelopes and option blocks under any policy, addresses, short strings,
and the two username/password messages. -/
theorem readers_incremental :
    (∀ mode policy, Incremental (Message.read mode policy)) ∧
    (∀ mode policy, Incremental (OptionSet.read mode policy)) ∧
    Incremental Address.read ∧ Incremental ShortString.read ∧
    Incremental Credentials.read ∧ Incremental Verdict.read :=
  ⟨fun mode policy => (Message.streaming_read mode policy).incremental,
    fun mode policy => (OptionSet.streaming_read mode policy).incremental,
    Address.streaming_read.incremental, ShortString.streaming_read.incremental,
    Credentials.streaming_read.incremental, Verdict.streaming_read.incremental⟩

end Socks6
