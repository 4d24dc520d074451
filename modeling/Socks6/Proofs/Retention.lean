/-
# Socks6.Proofs.Retention — what is not interpreted does not interfere

A policy keeps frames that nobody interprets or leaves them out.  That is the only
difference it makes: the same bytes are read, up to the same place, to sets that
are equal but for these frames, and the same other records are accepted, dropped
and refused (`OptionSet.read_retaining`).

Two runs go over the same frames side by side.  One of them carries the frames
that it keeps, and `OptionSet.bare` is what the other one carries at the same
point: no check looks at kept frames, so an interpreted option fares alike in both
(`OptionSet.apply_bare`), and a frame that is not interpreted changes the one by
what `bare` takes off again, and the other not at all.
-/
import Socks6.Proofs.Accounting

namespace Socks6

open CursorM

/-- Nobody looks into the frame in this kind of envelope. -/
def Frame.isUninterpreted (mode : Mode) (f : Frame) : Bool := f.interpret mode = .ok (.raw f)

theorem Frame.isRaw_of_interpret {mode : Mode} {f : Frame} {o : OptionRecord}
    (h : f.interpret mode = .ok o) : o.isRaw = f.isUninterpreted mode := by
  cases o with
  | raw g => exact (decide_eq_true (Frame.interpret_eq_raw h ▸ h)).symm
  | _ => simp [isUninterpreted, h, OptionRecord.isRaw]

/-- The event says that a frame is left out by policy. -/
def Event.isUnrecognized : Event → Bool
  | .unrecognized .. => true
  | .malformed .. | .refused .. | .corrupt .. | .limitReached .. | .decoded .. => false

theorem BlockEnd.not_unrecognized {limit : Nat} {ending : BlockEnd} {e : Event}
    (h : e ∈ ending.events limit) : e.isUnrecognized = false := by
  have warns := ending.severity_events limit e h
  cases e with
  | unrecognized => cases warns
  | _ => rfl

namespace OptionSet

variable {s : OptionSet} {o : OptionRecord} {p : PlacedFrame} {m : AuthMethod}

/-- The set without the frames that are passed on. -/
def bare (s : OptionSet) : OptionSet := { s with raw := [] }

/-! ## One record -/

/-- Whether an interpreted option is applied does not depend on the frames. -/
theorem apply_bare (interpreted : o.isRaw = false) : s.bare.apply o = (s.apply o).map bare := by
  have same : s.bare.allows o = s.allows o := rfl
  unfold apply
  rw [same]
  rcases s.allows o
  · rfl
  · cases o with
    | stack x => cases merged : s.stack.merge x <;> simp [bare, merged] <;> rfl
    | session x => cases merged : s.session.merge x <;> simp [bare, merged] <;> rfl
    | token x => cases merged : s.tokens.merge x <;> simp [bare, merged] <;> rfl
    | advertisement a => cases merged : s.methods.merge a <;> simp [bare, merged] <;> rfl
    | authData d => cases merged : s.authData.merge d <;> simp [bare, merged] <;> rfl
    | raw frame => cases interpreted

theorem select_bare : s.bare.select m = (s.select m).map bare := by
  unfold select
  by_cases reply : s.mode = .authReply
  · cases merged : s.methods.select m <;> simp [bare, reply, merged] <;> rfl
  · simp [bare, reply]
    rfl

/-- A frame that is not interpreted is kept by one run, and reported by the other. -/
theorem absorb_uninterpreted (uninterpreted : p.frame.isUninterpreted s.mode = true) :
    s.absorb true p = .ok { s with raw := s.raw ++ [p.frame] } ∧
      s.bare.absorb false p = .error (.unrecognized p.frame.kind p.offset) := by
  have held : p.frame.interpret s.mode = .ok (.raw p.frame) := of_decide_eq_true uninterpreted
  constructor
  · exact absorb_eq_ok.mpr ⟨_, held, rfl, apply_eq_ok.mpr ⟨rfl, held, rfl⟩⟩
  · have held' : p.frame.interpret s.bare.mode = .ok (.raw p.frame) := held
    rw [absorb, held']
    rfl

/-- Any other frame fares alike in both runs, and is not reported as unrecognized. -/
theorem absorb_interpreted (interpreted : p.frame.isUninterpreted s.mode = false) :
    s.bare.absorb false p = (s.absorb true p).map bare ∧
      ∀ e, s.absorb true p = .error e → e.isUnrecognized = false := by
  have mode : s.bare.mode = s.mode := rfl
  unfold absorb
  rw [mode]
  rcases held : p.frame.interpret s.mode with fault | o
  · exact ⟨rfl, fun e h => by cases h; rfl⟩
  · have known : o.isRaw = false := (Frame.isRaw_of_interpret held).trans interpreted
    simp only [known, Bool.false_and, apply_bare known]
    rcases s.apply o with fault | t
    · exact ⟨rfl, fun e h => by cases h; rfl⟩
    · exact ⟨rfl, nofun⟩

/-! ## All records of a block -/

/-- The two runs over the same frames, side by side. -/
theorem absorbAll_bare (s : OptionSet) (ps : List PlacedFrame) :
    (s.bare.absorbAll false ps).1 = (s.absorbAll true ps).1.bare ∧
    (s.absorbAll true ps).2 = (s.bare.absorbAll false ps).2.filter (!·.isUnrecognized) ∧
    s.bare.absorbed false ps =
      (s.absorbed true ps).filter fun p => !p.frame.isUninterpreted s.mode := by
  induction ps generalizing s with
  | nil => exact ⟨rfl, rfl, rfl⟩
  | cons p ps ih =>
      rcases seen : p.frame.isUninterpreted s.mode
      · obtain ⟨alike, known⟩ := absorb_interpreted seen
        rcases taken : s.absorb true p with e | t
        · rw [taken] at alike
          obtain ⟨set, events, accepted⟩ := ih s
          rw [absorbAll_of_error taken, absorbAll_of_error alike, absorbed_of_error taken,
            absorbed_of_error alike, List.filter_cons_of_pos (by simp [known e taken])]
          exact ⟨set, congrArg (List.cons e) events, accepted⟩
        · rw [taken] at alike
          have mode := mode_absorb true s p
          rw [taken, show (Except.ok t).toOption.getD s = t from rfl] at mode
          obtain ⟨set, events, accepted⟩ := ih t
          rw [mode] at accepted
          rw [absorbAll_of_ok taken, absorbAll_of_ok alike, absorbed_of_ok taken,
            absorbed_of_ok alike, List.filter_cons_of_pos (by simp [seen])]
          exact ⟨set, events, congrArg (List.cons p) accepted⟩
      · obtain ⟨kept, out⟩ := absorb_uninterpreted seen
        obtain ⟨set, events, accepted⟩ := ih { s with raw := s.raw ++ [p.frame] }
        rw [absorbAll_of_ok kept, absorbAll_of_error out, absorbed_of_ok kept,
          absorbed_of_error out, List.filter_cons_of_neg (by simp [Event.isUnrecognized]),
          List.filter_cons_of_neg (by simp [seen])]
        exact ⟨set, events, accepted⟩

theorem ofBlock_bare (mode : Mode) (limit : Nat) (block : Bytes) :
    (ofBlock mode ⟨false, limit⟩ block).1 = (ofBlock mode ⟨true, limit⟩ block).1.bare ∧
    (ofBlock mode ⟨true, limit⟩ block).2 =
      (ofBlock mode ⟨false, limit⟩ block).2.filter (!·.isUnrecognized) := by
  obtain ⟨set, events, -⟩ :=
    absorbAll_bare (empty mode) ((Cursor.ofBytes block).frames limit).1
  refine ⟨set, ?_⟩
  have ending : ∀ e ∈ ((Cursor.ofBytes block).frames limit).2.events limit,
      (!e.isUnrecognized) = true := by
    intro e he
    rw [BlockEnd.not_unrecognized he]
    rfl
  rw [snd_ofBlock, snd_ofBlock, List.filter_append, List.filter_eq_self.mpr ending]
  exact congrArg (· ++ _) events

/-! ## Reading -/

theorem on_read_cases (c : Cursor) :
    (∃ e c', ∀ mode policy, (OptionSet.read mode policy).on c = (.error e, c')) ∨
    ∃ block c', block.length ≤ Frame.maxBlock ∧ c.Passes (counted block) c' ∧
      ∀ mode policy, (OptionSet.read mode policy).on c = (.ok (ofBlock mode policy block), c') := by
  rcases first : readU16.on c with ⟨e | length, c₁⟩
  · exact .inl ⟨e, c₁, fun _ _ => on_bind_of_error first⟩
  · rcases second : (CursorM.read length.toNat).on c₁ with ⟨e | block, c'⟩
    · exact .inl ⟨e, c', fun _ _ => (on_bind_of_ok first).trans (on_bind_of_error second)⟩
    · have done (mode : Mode) (policy : Policy) : (OptionSet.read mode policy).on c =
          (.ok (ofBlock mode policy block.val), c') :=
        (on_bind_of_ok first).trans (on_bind_of_ok second)
      have fits : block.val.length ≤ Frame.maxBlock := by
        rw [block.property]
        exact Nat.le_of_lt_succ length.toNat_lt
      refine .inr ⟨block.val, c', fits, ?_, done⟩
      refine Cursor.passes_append.mpr ⟨c₁, ?_, CursorM.on_read_eq_ok.mp second⟩
      rw [block.property, UInt16.ofNat_toNat]
      exact on_readU16_eq_ok.mp first

/-- Keeping what is not interpreted, or leaving it out, makes no other difference:
it fails alike, or reads the same block to sets that differ in these frames only,
after the same decisions about the same records. -/
theorem read_retaining (mode : Mode) (limit : Nat) (c : Cursor) :
    (∃ e c', (OptionSet.read mode ⟨false, limit⟩).on c = (.error e, c') ∧
      (OptionSet.read mode ⟨true, limit⟩).on c = (.error e, c')) ∨
    ∃ s events events' c',
      (OptionSet.read mode ⟨false, limit⟩).on c = (.ok ({ s with raw := [] }, events), c') ∧
      (OptionSet.read mode ⟨true, limit⟩).on c = (.ok (s, events'), c') ∧
      events' = events.filter (!·.isUnrecognized) ∧
      ∃ block, c.Passes (counted block) c' ∧
        let examined := ((Cursor.ofBytes block).frames limit).1
        (empty mode).absorbed false examined =
          ((empty mode).absorbed true examined).filter fun p => !p.frame.isUninterpreted mode := by
  rcases on_read_cases c with ⟨e, c', failed⟩ | ⟨block, c', -, there, done⟩
  · exact .inl ⟨e, c', failed _ _, failed _ _⟩
  · obtain ⟨set, events⟩ := ofBlock_bare mode limit block
    obtain ⟨-, -, accepted⟩ :=
      absorbAll_bare (empty mode) ((Cursor.ofBytes block).frames limit).1
    refine .inr ⟨_, (ofBlock mode ⟨false, limit⟩ block).2, _, c', ?_, done _ _, events, block,
      there, accepted⟩
    rw [done]
    exact congrArg (fun s => (Except.ok (s, _), c')) set

end OptionSet

/-! ## Whole envelopes -/

namespace Message

theorem assemble_bare (head : Head) (options : OptionSet) :
    assemble head options.bare =
      (assemble head options).map fun m => m.setOptions m.options.bare := by
  cases head with
  | request code port address => rfl
  | operationReply code initialDataOffset port address => rfl
  | authReply code method =>
      rw [assemble, assemble, OptionSet.select_bare]
      rcases options.select method <;> rfl

/-- The same of envelopes: they differ in the frames that are passed on, and no
other outcome does. -/
theorem read_bare (mode : Mode) (limit : Nat) (c : Cursor) :
    let retaining := (Message.read mode ⟨true, limit⟩).on c
    (Message.read mode ⟨false, limit⟩).on c =
      (retaining.1.map fun m => m.setOptions m.options.bare, retaining.2) := by
  intro retaining
  simp only [retaining, Message.read, readLogged, on_bind]
  rcases (Head.read mode).on c with ⟨e | head, c₁⟩
  · rfl
  · rcases OptionSet.on_read_cases c₁ with ⟨e, c', failed⟩ | ⟨block, c', -, -, done⟩
    · simp only [failed]
      rfl
    · simp only [done, (OptionSet.ofBlock_bare mode limit block).1, assemble_bare]
      rcases assemble head (OptionSet.ofBlock mode ⟨true, limit⟩ block).1 with e | m <;> rfl

end Message

end Socks6
