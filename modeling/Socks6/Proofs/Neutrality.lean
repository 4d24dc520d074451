/-
# Socks6.Proofs.Neutrality — what nobody looks into, nobody looks into anywhere

A frame that stays a frame in one kind of envelope stays a frame in each, so what
one set passes on can be handed to every other (`Frame.interpret_neutral`).

The kind of envelope enters reading in one place.  Authentication data begins with
its method, and behind the method username/password stand credentials in a
request, a verdict in an authentication reply, and nothing that may be there in an
operation reply.  Whichever it is, the frame is interpreted or broken; what it is
not is unknown.  Unknown content is recognized before the envelope is asked: by
the kind of the frame (`Frame.interpret_eq_raw_iff`), or by the first byte of
authentication data (`AuthData.on_readBody_eq_none`).
-/
import Socks6.Proofs.Lawful

namespace Socks6

open CursorM

/-- Authentication data is unknown exactly if it is the data of another method. -/
theorem AuthData.on_readBody_eq_none {mode : Mode} {c c' : Cursor} :
    (readBody mode).on c = (.ok none, c') ↔
      ∃ method, AuthMethod.ofByte method ≠ .usernamePassword ∧ c.Passes [method] c' := by
  simp only [readBody, on_bind_eq_ok, on_readU8_eq_ok]
  constructor
  · intro h
    obtain ⟨method, c₁, first, rest⟩ := h
    split at rest
    · rename_i other
      obtain ⟨-, rfl⟩ := on_pure_eq_ok.mp rest
      exact ⟨method, other, first⟩
    · -- each envelope has a reading of its own here, and none of them is to leave it
      cases mode with
      | request =>
          obtain ⟨_, _, -, found⟩ := on_bind_eq_ok.mp rest
          cases (on_pure_eq_ok.mp found).1
      | authReply =>
          obtain ⟨_, _, -, found⟩ := on_bind_eq_ok.mp rest
          cases (on_pure_eq_ok.mp found).1
      | operationReply => exact (on_throw_eq_ok.mp rest).elim
  · intro h
    obtain ⟨method, other, first⟩ := h
    refine ⟨method, c', first, ?_⟩
    rw [if_pos other]
    exact on_pure _ _

namespace OptionRecord

variable {kind : OptionKind}

theorem readBody_eq (mode mode' : Mode) (other : kind ≠ .authData) :
    readBody mode kind = readBody mode' kind := by
  cases kind with
  | authData => exact absurd rfl other
  | _ => rfl

theorem onBytes_readBody_eq_none_iff (mode mode' : Mode) (body : Bytes) :
    (readBody mode kind).onBytes body = .ok none ↔
      (readBody mode' kind).onBytes body = .ok none := by
  by_cases data : kind = .authData
  · subst data
    suffices carried : ∀ m m' : Mode, (readBody m .authData).onBytes body = .ok none →
        (readBody m' .authData).onBytes body = .ok none from ⟨carried _ _, carried _ _⟩
    intro m m' unknown
    obtain ⟨_, read⟩ := exists_on_of_onBytes unknown
    obtain ⟨found, c, first, mapped⟩ := on_bind_eq_ok.mp read
    rw [Option.map_eq_none_iff.mp (on_pure_eq_ok.mp mapped).1] at first
    have again : (AuthData.readBody m').on (.ofBytes body) = (.ok none, c) :=
      AuthData.on_readBody_eq_none.mpr (AuthData.on_readBody_eq_none.mp first)
    show ((readBody m' .authData).on (.ofBytes body)).1 = _
    rw [readBody, on_bind_of_ok again]
    rfl
  · rw [readBody_eq mode mode' data]

end OptionRecord

namespace Frame

variable {f g : Frame}

/-- A frame stays a frame exactly if its kind is unknown or its content is. -/
theorem interpret_eq_raw_iff {mode : Mode} :
    f.interpret mode = .ok (.raw g) ↔ g = f ∧ ∀ kind,
      Coded.ofCode? OptionKind f.kind.toNat = some kind →
        (OptionRecord.readBody mode kind).onBytes f.body = .ok none := by
  unfold interpret
  cases Coded.ofCode? OptionKind f.kind.toNat with
  | none => simp [pure_eq_ok, eq_comm]
  | some kind =>
      rcases body : (OptionRecord.readBody mode kind).onBytes f.body with e | _ | o
      · simp [body]
      · simp [body, eq_comm]
      · have interpreted : o ≠ .raw g := by
          rintro rfl
          obtain ⟨c, read⟩ := exists_on_of_onBytes body
          cases OptionRecord.isRaw_of_on_readBody read
        simp [body, interpreted]

theorem interpret_eq_raw_congr (mode mode' : Mode) :
    f.interpret mode = .ok (.raw g) ↔ f.interpret mode' = .ok (.raw g) := by
  simp only [interpret_eq_raw_iff, OptionRecord.onBytes_readBody_eq_none_iff mode mode']

/-- Every other kind of frame is interpreted in the same way, or fails in the same way. -/
theorem interpret_eq_of_ne (mode mode' : Mode)
    (other : f.kind ≠ UInt16.ofNat (Coded.code OptionKind.authData)) :
    f.interpret mode = f.interpret mode' := by
  unfold interpret
  rcases lookup : Coded.ofCode? OptionKind f.kind.toNat with _ | kind
  · rfl
  · have known : kind ≠ .authData := by
      rintro rfl
      refine other ?_
      rw [Coded.code_of_ofCode? lookup, UInt16.ofNat_toNat]
    simp only [OptionRecord.readBody_eq mode mode' known]

/-- Whether a frame is passed on as it is does not depend on the kind of envelope,
and of the frames that are not, only those of authentication data are read by it.
So a frame that a set passes on is taken by every set of every kind. -/
theorem interpret_neutral (mode mode' : Mode) (f : Frame) :
    (∀ g, f.interpret mode = .ok (.raw g) ↔ f.interpret mode' = .ok (.raw g)) ∧
    (f.kind ≠ UInt16.ofNat (Coded.code OptionKind.authData) →
      f.interpret mode = f.interpret mode') ∧
    ∀ s t : OptionSet, s.Reachable → f ∈ s.raw →
      t.attempt (.raw f) = (.ok (), { t with raw := t.raw ++ [f] }) := by
  refine ⟨fun g => interpret_eq_raw_congr mode mode', interpret_eq_of_ne mode mode', ?_⟩
  intro s t arises passed
  have here := arises.lawful.raw f passed
  have there : f.interpret t.mode = .ok (.raw f) := (interpret_eq_raw_congr s.mode t.mode).mp here
  have applied : t.apply (.raw f) = .ok { t with raw := t.raw ++ [f] } :=
    OptionSet.apply_eq_ok.mpr ⟨rfl, there, rfl⟩
  rw [OptionSet.attempt, OptionSet.change, applied]

/-- Authentication data of another method, which a request passes on, handed to an
operation reply, in which there is no authentication data. -/
theorem interpret_neutral_gssapi :
    let f : Frame := ⟨3, [1, 170, 0]⟩
    let s := ((OptionSet.empty .request).attempt (.raw f)).2
    let t := ((OptionSet.empty .operationReply).attempt (.raw ⟨99, []⟩)).2
    s.Reachable ∧ f ∈ s.raw ∧
      (t.attempt (.raw f)).1 = .ok () ∧ (t.attempt (.raw f)).2.raw = [⟨99, []⟩, f] := by
  intro f s t
  have arises : s.Reachable := .attempt _ (.empty .request)
  have passed : f ∈ s.raw := List.mem_singleton.mpr rfl
  obtain ⟨-, -, handed⟩ := interpret_neutral .request .operationReply f
  rw [handed s t arises passed]
  exact ⟨arises, passed, rfl, rfl⟩

/-- What the exception is for: a request has credentials, and an operation reply has none. -/
example :
    let f : Frame := ⟨3, [2, 1, 1, 117, 1, 112]⟩
    (f.interpret .request).isOk = true ∧ (f.interpret .operationReply).isOk = false :=
  ⟨rfl, rfl⟩

end Frame

end Socks6
