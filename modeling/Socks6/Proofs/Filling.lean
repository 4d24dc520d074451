/-
# Socks6.Proofs.Filling — writing into a buffer that is already there

The size of a message is computed by one set of functions and its bytes are
written by another.  Writing compares the two at the end, and this comparison
never fails: a message goes into any buffer that is as long as its size says, if
its domain is a name and its records fit behind a length of two bytes, and into
no other.  Then the bytes are those of `Message.encode`, whatever the buffer held,
and nothing behind them is touched (`Message.fill_exact`).

That `Message.fill` succeeds is read off the bytes that its parts write
(`Message.writes`).  That nothing else goes wrong than a refused value or a want
of room is a property of actions that sequences inherit (`CursorM.Declines`); only
where a set counts what it has written does it need the bytes again.
-/
import Socks6.Proofs.Invariant
import Socks6.Proofs.Refusal
import Socks6.Proofs.RoundTrip

namespace Socks6

open CursorM

/-! ## What goes wrong in writing -/

namespace CursorM

variable {α β : Type} {x : CursorM α} {f : α → CursorM β} {y : CursorM β}

/-- A sequence fails where its first part does, or behind it. -/
theorem on_bind_eq_error {e : Error} {c c' : Cursor} :
    (x >>= f).on c = (.error e, c') ↔
      x.on c = (.error e, c') ∨ ∃ a c₁, x.on c = (.ok a, c₁) ∧ (f a).on c₁ = (.error e, c') := by
  rw [on_bind]
  rcases x.on c with ⟨_ | a, c₁⟩ <;> simp

/-- If this fails, a value was refused or there was no room. -/
def Declines (act : CursorM α) : Prop :=
  ∀ c e c', act.on c = (.error e, c') → e.isInvalidField = true ∨ e.isTruncated = true

namespace Declines

theorem pure (a : α) : Declines (pure a) := by
  intro c e c' failed
  cases failed

theorem throw (field : String) (reason : Reason) :
    Declines (throw (.invalidField field reason) : CursorM α) := by
  intro c e c' failed
  cases failed
  exact .inl rfl

theorem bind (hx : Declines x) (hf : ∀ a, Declines (f a)) : Declines (x >>= f) := by
  intro c e c' failed
  rcases on_bind_eq_error.mp failed with first | ⟨a, c₁, -, second⟩
  · exact hx c e c' first
  · exact hf a c₁ e c' second

theorem refuseIf {bad : Prop} [Decidable bad] {field : String} {reason : Reason}
    {k : Unit → CursorM α} (hk : ∀ u, Declines (k u)) :
    Declines (if bad then (MonadExcept.throw (.invalidField field reason) : CursorM Unit) >>= k
      else k ()) := by
  split
  · exact (throw field reason).bind hk
  · exact hk ()

theorem ofExcept {r : Except Error α} (blames : Blames r) : Declines (ofExcept r) := by
  intro c e c' failed
  cases r with
  | ok a => cases failed
  | error fault =>
      cases failed
      obtain ⟨field, reason, rfl⟩ := blames e rfl
      exact .inl rfl

theorem offset : Declines offset := by
  intro c e c' failed
  cases failed

theorem write (bs : Bytes) : Declines (write bs) := by
  intro c e c' failed
  rw [on_write] at failed
  split at failed
  · cases failed
  · cases failed
    exact .inr rfl

theorem writeZeros (n : Nat) : Declines (writeZeros n) := by
  rw [writeZeros_eq]
  exact write _

theorem forM {as : List β} {act : β → CursorM PUnit} (each : ∀ b, Declines (act b)) :
    Declines (as.forM act) := by
  induction as with
  | nil => exact pure _
  | cons a as ih => exact (each a).bind fun _ => ih

theorem writeAll (pieces : List Bytes) : Declines (writeAll pieces) := forM write

theorem reserve : Declines reserve := offset.bind fun _ => (write _).bind fun _ => pure _

theorem patch (position : Nat) (n : UInt16) : Declines (patch position n) := by
  intro c e c' failed
  change (if position + 2 ≤ c.offset then _ else _) = _ at failed
  split at failed
  · cases failed
  · cases failed
    exact .inr rfl

end Declines

end CursorM

open Declines

theorem Address.declines_write (a : Address) : Declines a.write := by
  refine (Declines.write _).bind fun _ => ?_
  cases a with
  | ipv4 octets => exact .write _
  | ipv6 octets => exact .write _
  | domain name =>
      exact (Declines.ofExcept (name.blames_checkName _)).bind fun _ => .writeAll _

theorem Head.declines_write (h : Head) : Declines h.write := by
  refine Declines.bind (.writeAll _) fun _ => ?_
  cases h with
  | request code port address =>
      exact (Declines.write _).bind fun _ => (Declines.write _).bind fun _ => address.declines_write
  | authReply code method => exact (Declines.write _).bind fun _ => .write _
  | operationReply code initialDataOffset port address =>
      exact (Declines.write _).bind fun _ => (Declines.write _).bind fun _ =>
        (Declines.write _).bind fun _ => address.declines_write

theorem OptionRecord.declines_write (o : OptionRecord) : Declines o.write := by
  cases o with
  | raw frame => exact refuseIf fun _ => .writeAll _
  | _ => exact refuseIf fun _ => (Declines.writeAll _).bind fun _ => .writeZeros _

/-- What a set has written behind its length is as much as it announced. -/
theorem OptionSet.declines_write (s : OptionSet) : Declines s.write := by
  rw [OptionSet.write]
  refine refuseIf fun _ => Declines.reserve.bind fun position => ?_
  intro c e c' failed
  rcases on_bind_eq_error.mp failed with h | ⟨start, _, here, failed⟩
  · exact Declines.offset c e c' h
  cases here
  rcases on_bind_eq_error.mp failed with h | ⟨_, c₁, written, failed⟩
  · exact Declines.forM OptionRecord.declines_write c e c' h
  obtain ⟨-, puts⟩ := (writes_records s.records c c₁).mp written
  rcases on_bind_eq_error.mp failed with h | ⟨stop, _, there, failed⟩
  · exact Declines.offset c₁ e c' h
  cases there
  have total : c₁.offset - c.offset = s.recordsSize := by
    rw [puts.offset_eq, Nat.add_sub_cancel_left, ← length_block, block]
  rw [if_pos total] at failed
  exact Declines.patch position _ c₁ e c' failed

theorem Message.declines_write (m : Message) : Declines m.write :=
  m.head.declines_write.bind fun _ => m.options.declines_write

/-! ## Filling -/

/-- The address in a head; an authentication reply has none. -/
def Head.address? : Head → Option Address
  | .request _ _ address => some address
  | .authReply _ _ => none
  | .operationReply _ _ _ address => some address

theorem Head.proper_iff (h : Head) :
    h.Proper ↔ ∀ name, h.address? = some (.domain name) → name.IsName := by
  have one (a : Address) : a.Proper ↔ ∀ name, some a = some (.domain name) → name.IsName := by
    cases a with
    | domain name => simp [Address.Proper, ShortString.checkName_eq_ok, ShortString.IsName]
    | _ => simp [Address.Proper]
  cases h with
  | request code port address => exact one address
  | authReply code method => exact iff_of_true trivial nofun
  | operationReply code initialDataOffset port address => exact one address

namespace Message

variable {m : Message} {buffer : Bytes} {c : Cursor}

/-- Filling does what writing does: the sizes that it compares are equal. -/
theorem fill_of_write (written : m.write.on (.ofBytes buffer) = (.ok (), c)) :
    m.fill buffer = (.ok m.size, m.bytes ++ buffer.drop m.size) := by
  obtain ⟨-, puts⟩ := (m.writes _ _).mp written
  have moved : c.offset = m.size := by
    rw [puts.offset_ofBytes, length_bytes]
  have after : c.buffer = m.bytes ++ buffer.drop m.size := by
    rw [puts.buffer_ofBytes, length_bytes]
  simp only [fill, written, moved, if_true, after]

theorem fill_cases (m : Message) (buffer : Bytes) :
    (((m.head.Proper ∧ m.options.recordsSize ≤ Frame.maxBlock) ∧ m.size ≤ buffer.length) ∧
      m.fill buffer = (.ok m.size, m.bytes ++ buffer.drop m.size)) ∨
    (¬((m.head.Proper ∧ m.options.recordsSize ≤ Frame.maxBlock) ∧ m.size ≤ buffer.length) ∧
      ∃ e, (m.fill buffer).1 = .error e ∧ (e.isInvalidField = true ∨ e.isTruncated = true)) := by
  rcases written : m.write.on (.ofBytes buffer) with ⟨e | _, c⟩
  · refine .inr ⟨?_, e, by rw [fill, written], m.declines_write _ e c written⟩
    rintro ⟨condition, room⟩
    rw [← length_bytes] at room
    obtain ⟨c', puts⟩ := Cursor.exists_puts (c := .ofBytes buffer) room
    cases written.symm.trans ((m.writes _ c').mpr ⟨condition, puts⟩)
  · obtain ⟨condition, room, -⟩ := (m.writes _ _).mp written
    rw [length_bytes] at room
    exact .inl ⟨⟨condition, room⟩, fill_of_write written⟩

/-- A message goes into a buffer exactly if its domain is a name, its records fit
behind their length and the buffer is long enough.  Then the answer is its size,
and the buffer begins with its bytes, in which the length of the options counts
the records, and goes on as before.  Otherwise a value is blamed or the room, and
so it is where the options alone are written. -/
theorem fill_exact (m : Message) (buffer : Bytes) :
    let total := (m.options.records.map OptionRecord.size).sum
    let after := (m.fill buffer).2
    ((∃ n, (m.fill buffer).1 = .ok n) ↔
      (∀ name, m.head.address? = some (.domain name) → name.IsName) ∧
        total ≤ 65535 ∧ m.size ≤ buffer.length) ∧
    (∀ n, (m.fill buffer).1 = .ok n →
      n = m.size ∧ after.length = buffer.length ∧ m.encode = .ok (after.take m.size) ∧
        Bytes.value ((after.drop m.head.size).take 2) = total ∧
        after.drop m.size = buffer.drop m.size) ∧
    (∀ e, (m.fill buffer).1 = .error e → e.isInvalidField = true ∨ e.isTruncated = true) ∧
    ∀ c e c', m.options.write.on c = (.error e, c') →
      e.isInvalidField = true ∨ e.isTruncated = true := by
  intro total after
  have sum : m.options.recordsSize = total := m.options.recordsSize_eq_sum
  have able : (m.head.Proper ∧ m.options.recordsSize ≤ Frame.maxBlock) ∧ m.size ≤ buffer.length ↔
      (∀ name, m.head.address? = some (.domain name) → name.IsName) ∧
        total ≤ 65535 ∧ m.size ≤ buffer.length := by
    rw [m.head.proper_iff, sum, and_assoc]
    rfl
  rw [← able]
  rcases m.fill_cases buffer with ⟨⟨⟨proper, fits⟩, room⟩, done⟩ | ⟨cannot, e, failed, declined⟩
  · have filled : after = m.bytes ++ buffer.drop m.size := congrArg Prod.snd done
    have size : m.bytes.length = m.size := m.length_bytes
    refine ⟨iff_of_true ⟨_, congrArg Prod.fst done⟩ ⟨⟨proper, fits⟩, room⟩, ?_, ?_,
      m.options.declines_write⟩
    · intro n answer
      rw [done] at answer
      obtain rfl := Except.ok.inj answer
      refine ⟨rfl, ?_, ?_, ?_, ?_⟩
      · rw [filled, List.length_append, List.length_drop, size]
        omega
      · rw [filled, List.take_left' size]
        exact encode_eq_ok.mpr ⟨⟨proper, fits⟩, rfl⟩
      · rw [filled, bytes, List.append_assoc, List.drop_left' m.head.length_bytes, OptionSet.bytes,
          List.append_assoc, List.take_left' (Bytes.length_ofUInt16 _), Bytes.value_ofUInt16,
          UInt16.toNat_ofNat_of_lt' (Nat.lt_succ_of_le fits), sum]
      · rw [filled, List.drop_left' size]
    · intro e failed
      rw [done] at failed
      cases failed
  · refine ⟨iff_of_false ?_ cannot, ?_, ?_, m.options.declines_write⟩
    · rintro ⟨n, answer⟩
      cases failed.symm.trans answer
    · intro n answer
      cases failed.symm.trans answer
    · intro e' failed'
      cases failed.symm.trans failed'
      exact declined

/-- A request to a domain, with a setting, in a buffer of ones that is two bytes too long. -/
theorem fill_exact_behind :
    let m : Message :=
      .request .connect (.domain ⟨[97, 46, 98], by decide⟩) 80
        ((OptionSet.empty .request).attempt (.tos .both 7)).2
    let buffer : Bytes := List.replicate 22 255
    (m.fill buffer).1 = .ok 20 ∧ m.encode = .ok ((m.fill buffer).2.take 20) ∧
      (m.fill buffer).2.drop 20 = [255, 255] := by
  intro m buffer
  have size : m.size = 20 := by decide
  have total : (m.options.records.map OptionRecord.size).sum = 8 := by decide
  obtain ⟨possible, done, -, -⟩ := fill_exact m buffer
  have name : ∀ name, m.head.address? = some (.domain name) → name.IsName := by
    intro name same
    rw [← Address.domain.inj (Option.some.inj same)]
    exact ⟨List.cons_ne_nil _ _, by simp⟩
  have fits : (m.options.records.map OptionRecord.size).sum ≤ 65535 := by omega
  have room : m.size ≤ buffer.length := by decide
  obtain ⟨n, answer⟩ := possible.mpr ⟨name, fits, room⟩
  obtain ⟨same, -, encoded, -, behind⟩ := done n answer
  rw [size] at same encoded behind
  exact ⟨same ▸ answer, encoded, behind⟩

end Message

end Socks6
