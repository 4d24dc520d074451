/-
# Socks6.Proofs.Body — the bodies of the interpreted options

Each of the five readers of a body is described by the bytes it takes.  Four of
them stop behind their option, so what follows is padding and of no account; the
bytes they take are exactly what is written for the option.  An advertisement
has no end of its own: it is read to the end of the body, and zeros in it are
skipped.
-/
import Socks6.Auth.Advertisement
import Socks6.Auth.Data
import Socks6.Session
import Socks6.Stack
import Socks6.Token
import Socks6.Proofs.Head

namespace Socks6

open CursorM

/-! ## Stack settings -/

namespace StackProperty

theorem on_readFlag_eq_ok {b : Bool} {c c' : Cursor} :
    readFlag.on c = (.ok b, c') ↔ c.Passes [if b then 1 else 0] c' := by
  simp only [readFlag, on_bind_eq_ok, on_readU8_eq_ok]
  constructor
  · intro h
    obtain ⟨byte, c₁, first, second⟩ := h
    split at second
    · obtain ⟨rfl, rfl⟩ := on_pure_eq_ok.mp second
      simp_all
    · split at second
      · obtain ⟨rfl, rfl⟩ := on_pure_eq_ok.mp second
        simp_all
      · exact (on_throw_eq_ok.mp second).elim
  · intro first
    refine ⟨_, c', first, ?_⟩
    cases b <;> simp

theorem on_readValue_eq_ok {level : StackLevel} {code : UInt8} {p : StackProperty}
    {c c' : Cursor} :
    (readValue level code).on c = (.ok (some p), c') ↔
      p.level = level ∧ p.code = code ∧ c.Passes p.valueBytes c' := by
  constructor
  · intro h
    unfold readValue at h
    split at h
    · rename_i one
      simp only [on_bind_eq_ok, on_readU8_eq_ok, on_pure_eq_ok] at h
      obtain ⟨value, _, first, eq, rfl⟩ := h
      cases eq
      exact ⟨rfl, UInt8.toNat_inj.mp one.symm, first⟩
    · rename_i one
      simp only [on_bind_eq_ok, on_readU16_eq_ok, on_pure_eq_ok] at h
      obtain ⟨value, _, first, eq, rfl⟩ := h
      cases eq
      exact ⟨rfl, UInt8.toNat_inj.mp one.symm, first⟩
    · rename_i two
      simp only [on_bind_eq_ok, on_readFlag_eq_ok, on_pure_eq_ok] at h
      obtain ⟨value, _, first, eq, rfl⟩ := h
      cases eq
      exact ⟨rfl, UInt8.toNat_inj.mp two.symm, first⟩
    · rename_i three
      simp only [on_bind_eq_ok, on_readCoded_eq_ok, on_pure_eq_ok] at h
      obtain ⟨value, _, first, eq, rfl⟩ := h
      cases eq
      exact ⟨rfl, UInt8.toNat_inj.mp three.symm, first⟩
    · rename_i four
      simp only [on_bind_eq_ok, on_readU16_eq_ok, on_pure_eq_ok] at h
      obtain ⟨value, _, first, eq, rfl⟩ := h
      cases eq
      exact ⟨rfl, UInt8.toNat_inj.mp four.symm, first⟩
    · obtain ⟨none, -⟩ := on_pure_eq_ok.mp h
      cases none
  · intro taken
    obtain ⟨rfl, rfl, first⟩ := taken
    cases p with
    | tos value => exact on_bind_eq_ok.mpr ⟨value, c', on_readU8_eq_ok.mpr first, rfl⟩
    | fastOpen size => exact on_bind_eq_ok.mpr ⟨size, c', on_readU16_eq_ok.mpr first, rfl⟩
    | multipath flag => exact on_bind_eq_ok.mpr ⟨flag, c', on_readFlag_eq_ok.mpr first, rfl⟩
    | scheduler how => exact on_bind_eq_ok.mpr ⟨how, c', on_readCoded_eq_ok.mpr first, rfl⟩
    | backlog n => exact on_bind_eq_ok.mpr ⟨n, c', on_readU16_eq_ok.mpr first, rfl⟩

end StackProperty

namespace StackSetting

theorem pieces_flatten (s : StackSetting) :
    s.pieces.flatten = [Coded.byte s.leg] ++ ([Coded.byte s.property.level] ++
      ([s.property.code] ++ s.property.valueBytes)) := by
  simp [pieces]

theorem length_pieces (s : StackSetting) : s.pieces.flatten.length = s.bodySize := by
  obtain ⟨leg, property⟩ := s
  cases property <;>
    simp [pieces_flatten, bodySize, StackProperty.valueBytes, StackProperty.valueSize]

theorem on_readBody_eq_ok {s : StackSetting} {c c' : Cursor} :
    readBody.on c = (.ok (some s), c') ↔
      s.property.validate = .ok () ∧ c.Passes s.pieces.flatten c' := by
  simp only [readBody, on_bind_eq_ok, on_readCoded_eq_ok, on_readU8_eq_ok, pieces_flatten,
    Cursor.passes_append]
  constructor
  · intro h
    obtain ⟨leg, c₁, first, byte, c₂, second, rest⟩ := h
    split at rest
    · cases (on_pure_eq_ok.mp rest).1
    · rename_i level lookup
      simp only [on_bind_eq_ok, on_readU8_eq_ok] at rest
      obtain ⟨code, c₃, third, read, c₄, fourth, rest⟩ := rest
      split at rest
      · cases (on_pure_eq_ok.mp rest).1
      · simp only [on_bind_eq_ok, on_ofExcept_eq_ok, on_pure_eq_ok] at rest
        obtain ⟨_, _, ⟨valid, rfl⟩, eq, rfl⟩ := rest
        cases eq
        obtain ⟨rfl, rfl, passed⟩ := StackProperty.on_readValue_eq_ok.mp fourth
        rw [Coded.byte_of_ofCode? lookup]
        exact ⟨valid, c₁, first, c₂, second, c₃, third, passed⟩
  · intro h
    obtain ⟨valid, c₁, first, c₂, second, c₃, third, fourth⟩ := h
    refine ⟨s.leg, c₁, first, _, c₂, second, ?_⟩
    rw [Coded.ofCode?_byte]
    refine on_bind_eq_ok.mpr ⟨_, c₃, on_readU8_eq_ok.mpr third, ?_⟩
    refine on_bind_eq_ok.mpr ⟨_, c', StackProperty.on_readValue_eq_ok.mpr ⟨rfl, rfl, fourth⟩, ?_⟩
    exact on_bind_eq_ok.mpr ⟨(), c', on_ofExcept_eq_ok.mpr ⟨valid, rfl⟩, rfl⟩

end StackSetting

/-! ## Session signals -/

theorem SessionId.ofBytes_eq_ok {bs : Bytes} {id : SessionId} :
    ofBytes bs = .ok id ↔ bs = id.bytes := by
  unfold ofBytes
  constructor
  · intro h
    split at h
    · cases h
      rfl
    · cases h
  · rintro rfl
    rw [dif_pos id.bounds]

namespace SessionSignal

theorem length_pieces (s : SessionSignal) : s.pieces.flatten.length = s.bodySize := by
  rcases s with (_ | id | _ | _) | _ | _
  case state.id => simp [pieces, bodySize, SessionId.length]; omega
  all_goals rfl

theorem on_readBody_eq_ok {s : SessionSignal} {c c' : Cursor} :
    readBody.on c = (.ok (some s), c') ↔ c.Passes s.pieces.flatten c' := by
  have kind : s.pieces.flatten = [Coded.byte s.type] ++ s.pieces.tail.flatten := rfl
  simp only [readBody, on_bind_eq_ok, on_readU8_eq_ok, kind, Cursor.passes_append]
  constructor
  · intro h
    obtain ⟨byte, c₁, first, rest⟩ := h
    rcases lookup : Coded.ofCode? SessionType byte.toNat with _ | type
    · rw [lookup] at rest
      cases (on_pure_eq_ok.mp rest).1
    · rw [lookup] at rest
      rw [← Coded.byte_of_ofCode? lookup] at first
      cases type
      case id =>
        simp only [on_bind_eq_ok, on_readU8_eq_ok, CursorM.on_read_eq_ok, on_ofExcept_eq_ok,
          on_pure_eq_ok, SessionId.ofBytes_eq_ok] at rest
        obtain ⟨length, c₂, second, ⟨bs, size⟩, _, third, id, _, ⟨rfl, rfl⟩, eq, rfl⟩ := rest
        cases eq
        have digit : UInt8.ofNat id.length = length := by
          rw [SessionId.length, size, UInt8.ofNat_toNat]
        refine ⟨c₁, first, Cursor.passes_append.mpr ⟨c₂, ?_, by simpa using third⟩⟩
        rw [digit]
        exact second
      all_goals
        obtain ⟨eq, rfl⟩ := on_pure_eq_ok.mp rest
        cases eq
        exact ⟨c₁, first, Cursor.passes_nil.mpr rfl⟩
  · intro h
    obtain ⟨c₁, first, rest⟩ := h
    refine ⟨_, c₁, first, ?_⟩
    rw [Coded.ofCode?_byte]
    rcases s with (_ | id | _ | _) | _ | _
    case state.id =>
      obtain ⟨c₂, second, third⟩ := Cursor.passes_append.mp rest
      have fits : id.bytes.length = (UInt8.ofNat id.length).toNat :=
        (UInt8.toNat_ofNat_of_lt' (Nat.lt_succ_of_le id.bounds.2)).symm
      refine on_bind_eq_ok.mpr ⟨_, c₂, on_readU8_eq_ok.mpr second, ?_⟩
      refine on_bind_eq_ok.mpr ⟨⟨id.bytes, fits⟩, c', ?_, ?_⟩
      · exact CursorM.on_read_eq_ok.mpr (by simpa using third)
      · exact on_bind_eq_ok.mpr
          ⟨id, c', on_ofExcept_eq_ok.mpr ⟨SessionId.ofBytes_eq_ok.mpr rfl, rfl⟩, rfl⟩
    all_goals
      rw [Cursor.passes_nil.mp rest]
      rfl

end SessionSignal

/-! ## Token options -/

namespace TokenOption

theorem length_pieces (o : TokenOption) : o.pieces.flatten.length = o.bodySize := by
  cases o <;> simp [pieces, bodySize]

theorem on_readPayload_eq_ok {type : TokenOptionType} {o : TokenOption} {c c' : Cursor} :
    (readPayload type).on c = (.ok o, c') ↔
      o.type = type ∧ c.Passes o.pieces.tail.flatten c' := by
  cases type with
  | windowRequest =>
      simp only [readPayload, on_bind_eq_ok, on_readU32_eq_ok, on_pure_eq_ok]
      constructor
      · intro h
        obtain ⟨size, _, first, rfl, rfl⟩ := h
        exact ⟨rfl, by simpa [pieces] using first⟩
      · intro h
        obtain ⟨kind, first⟩ := h
        cases o <;> cases kind
        exact ⟨_, c', by simpa [pieces] using first, rfl, rfl⟩
  | window =>
      simp only [readPayload, on_bind_eq_ok, on_readU32_eq_ok, on_pure_eq_ok]
      constructor
      · intro h
        obtain ⟨base, c₁, first, size, _, second, rfl, rfl⟩ := h
        exact ⟨rfl, by simpa [pieces] using Cursor.passes_append.mpr ⟨c₁, first, second⟩⟩
      · intro h
        obtain ⟨kind, rest⟩ := h
        cases o <;> cases kind
        rename_i w
        have both : c.Passes (Bytes.ofUInt32 w.base ++ Bytes.ofUInt32 w.size) c' := by
          simpa [pieces] using rest
        obtain ⟨c₁, first, second⟩ := Cursor.passes_append.mp both
        exact ⟨_, c₁, first, _, c', second, rfl, rfl⟩
  | expenditure =>
      simp only [readPayload, on_bind_eq_ok, on_readU32_eq_ok, on_pure_eq_ok]
      constructor
      · intro h
        obtain ⟨token, _, first, rfl, rfl⟩ := h
        exact ⟨rfl, by simpa [pieces] using first⟩
      · intro h
        obtain ⟨kind, first⟩ := h
        cases o <;> cases kind
        exact ⟨_, c', by simpa [pieces] using first, rfl, rfl⟩
  | expenditureReply =>
      simp only [readPayload, on_bind_eq_ok, on_readCoded_eq_ok, on_pure_eq_ok]
      constructor
      · intro h
        obtain ⟨result, _, first, rfl, rfl⟩ := h
        exact ⟨rfl, by simpa [pieces] using first⟩
      · intro h
        obtain ⟨kind, first⟩ := h
        cases o <;> cases kind
        exact ⟨_, c', by simpa [pieces] using first, rfl, rfl⟩

theorem on_readBody_eq_ok {o : TokenOption} {c c' : Cursor} :
    readBody.on c = (.ok (some o), c') ↔ o.validate = .ok () ∧ c.Passes o.pieces.flatten c' := by
  have kind : o.pieces.flatten = [Coded.byte o.type] ++ o.pieces.tail.flatten := rfl
  simp only [readBody, on_bind_eq_ok, on_readU8_eq_ok, kind, Cursor.passes_append]
  constructor
  · intro h
    obtain ⟨byte, c₁, first, rest⟩ := h
    split at rest
    · cases (on_pure_eq_ok.mp rest).1
    · rename_i lookup
      simp only [on_bind_eq_ok, on_readPayload_eq_ok, on_ofExcept_eq_ok, on_pure_eq_ok] at rest
      obtain ⟨_, _, ⟨rfl, second⟩, _, _, ⟨valid, rfl⟩, eq, rfl⟩ := rest
      cases eq
      rw [Coded.byte_of_ofCode? lookup]
      exact ⟨valid, c₁, first, second⟩
  · intro h
    obtain ⟨valid, c₁, first, second⟩ := h
    refine ⟨_, c₁, first, ?_⟩
    rw [Coded.ofCode?_byte]
    refine on_bind_eq_ok.mpr ⟨o, c', on_readPayload_eq_ok.mpr ⟨rfl, second⟩, ?_⟩
    exact on_bind_eq_ok.mpr ⟨(), c', on_ofExcept_eq_ok.mpr ⟨valid, rfl⟩, rfl⟩

end TokenOption

/-! ## Authentication data -/

theorem Subnegotiation.on_checkVersion_eq_ok {message : String} {u : Unit} {c c' : Cursor} :
    (checkVersion message).on c = (.ok u, c') ↔ c.Passes [version] c' := by
  simp only [checkVersion, on_bind_eq_ok, on_readU8_eq_ok]
  constructor
  · intro h
    obtain ⟨found, _, first, rest⟩ := h
    split at rest
    · rename_i right
      obtain ⟨-, rfl⟩ := on_pure_eq_ok.mp rest
      rwa [← right]
    · exact (on_throw_eq_ok.mp rest).elim
  · intro first
    exact ⟨version, c', first, rfl⟩

theorem Credentials.on_read_eq_ok {d : Credentials} {c c' : Cursor} :
    Credentials.read.on c = (.ok d, c') ↔ c.Passes d.pieces.flatten c' := by
  have parts : d.pieces.flatten = [Subnegotiation.version] ++
      (d.username.pieces.flatten ++ d.password.pieces.flatten) := by
    simp [pieces]
  simp only [Credentials.read, on_bind_eq_ok, Subnegotiation.on_checkVersion_eq_ok,
    ShortString.on_read_eq_ok, on_pure_eq_ok, parts, Cursor.passes_append]
  constructor
  · intro h
    obtain ⟨_, c₁, first, username, c₂, second, password, _, third, rfl, rfl⟩ := h
    exact ⟨c₁, first, c₂, second, third⟩
  · intro h
    obtain ⟨c₁, first, c₂, second, third⟩ := h
    exact ⟨(), c₁, first, _, c₂, second, _, c', third, rfl, rfl⟩

theorem Verdict.on_read_eq_ok {success : Verdict} {c c' : Cursor} :
    Verdict.read.on c = (.ok success, c') ↔ c.Passes (pieces success).flatten c' := by
  have parts : (pieces success).flatten = [Subnegotiation.version] ++ [status success] := rfl
  simp only [Verdict.read, on_bind_eq_ok, Subnegotiation.on_checkVersion_eq_ok, on_readU8_eq_ok,
    parts, Cursor.passes_append]
  constructor
  · intro h
    obtain ⟨_, c₁, first, found, c₂, second, rest⟩ := h
    split at rest
    · rename_i right
      obtain ⟨rfl, rfl⟩ := on_pure_eq_ok.mp rest
      exact ⟨c₁, first, right ▸ second⟩
    · split at rest
      · rename_i right
        obtain ⟨rfl, rfl⟩ := on_pure_eq_ok.mp rest
        exact ⟨c₁, first, right ▸ second⟩
      · exact (on_throw_eq_ok.mp rest).elim
  · intro h
    obtain ⟨c₁, first, second⟩ := h
    refine ⟨(), c₁, first, _, c', second, ?_⟩
    cases success <;> rfl

namespace AuthData

/-- The kind of envelope that authentication data of this shape travels in. -/
def envelope : AuthData → Mode
  | .credentials _ => .request
  | .verdict _ => .authReply

theorem length_pieces (d : AuthData) : d.pieces.flatten.length = d.bodySize := by
  cases d with
  | credentials c =>
      rw [pieces, List.flatten_cons, List.length_append, Credentials.length_pieces]
      rfl
  | verdict success => rfl

theorem on_readBody_eq_ok {mode : Mode} {d : AuthData} {c c' : Cursor} :
    (readBody mode).on c = (.ok (some d), c') ↔
      d.envelope = mode ∧ c.Passes d.pieces.flatten c' := by
  have kind : d.pieces.flatten = [AuthMethod.usernamePassword.byte] ++ d.pieces.tail.flatten := rfl
  simp only [readBody, on_bind_eq_ok, on_readU8_eq_ok, kind, Cursor.passes_append]
  constructor
  · intro h
    obtain ⟨method, c₁, first, rest⟩ := h
    split at rest
    · cases (on_pure_eq_ok.mp rest).1
    · rename_i named
      have right : AuthMethod.usernamePassword.byte = method := by
        rw [← Decidable.not_not.mp named, AuthMethod.byte_ofByte]
      rw [right]
      cases mode with
      | request =>
          simp only [on_bind_eq_ok, Credentials.on_read_eq_ok, on_pure_eq_ok] at rest
          obtain ⟨credentials, _, second, eq, rfl⟩ := rest
          cases eq
          exact ⟨rfl, c₁, first, second⟩
      | authReply =>
          simp only [on_bind_eq_ok, Verdict.on_read_eq_ok, on_pure_eq_ok] at rest
          obtain ⟨success, _, second, eq, rfl⟩ := rest
          cases eq
          exact ⟨rfl, c₁, first, second⟩
      | operationReply => exact (on_throw_eq_ok.mp rest).elim
  · intro h
    obtain ⟨rfl, c₁, first, second⟩ := h
    refine ⟨_, c₁, first, ?_⟩
    cases d with
    | credentials credentials =>
        exact on_bind_eq_ok.mpr ⟨credentials, c', Credentials.on_read_eq_ok.mpr second, rfl⟩
    | verdict success =>
        exact on_bind_eq_ok.mpr ⟨success, c', Verdict.on_read_eq_ok.mpr second, rfl⟩

end AuthData

/-! ## Advertisements -/

theorem AuthMethod.Canonical.byte_ne_zero {m : AuthMethod} (h : m.Canonical) (ne : m ≠ .noAuth) :
    m.byte ≠ 0 := by
  intro zero
  rw [Canonical, zero] at h
  exact ne h.symm

namespace Advertisement

theorem pieces_flatten (a : Advertisement) :
    a.pieces.flatten = Bytes.ofUInt16 a.initialDataLength ++ a.emitted.map AuthMethod.byte := by
  rw [pieces, List.flatten_cons, ← List.flatMap_def, ← List.map_eq_flatMap]

theorem length_pieces (a : Advertisement) : a.pieces.flatten.length = a.bodySize := by
  simp [pieces_flatten, bodySize]

theorem on_readBody_eq_ok {a : Advertisement} {c c' : Cursor} :
    readBody.on c = (.ok a, c') ↔
      ∃ bs, c.Passes (Bytes.ofUInt16 a.initialDataLength ++ bs) c' ∧ c'.rest = [] ∧
        a.methods = (bs.filter (· ≠ 0)).map AuthMethod.ofByte := by
  simp only [readBody, on_bind_eq_ok, on_readU16_eq_ok, on_readRest, Cursor.passes_append]
  constructor
  · intro h
    obtain ⟨length, c₁, first, bs, _, taken, rest⟩ := h
    cases taken
    obtain ⟨rfl, rfl⟩ := on_pure_eq_ok.mp rest
    exact ⟨c₁.rest, ⟨c₁, first, by simp [Cursor.advance, Cursor.remaining],
      by simp [Cursor.advance, Cursor.remaining]⟩, by simp [Cursor.advance, Cursor.remaining], rfl⟩
  · intro h
    obtain ⟨bs, ⟨c₁, first, second⟩, last, methods⟩ := h
    have all : c₁.rest = bs := by rw [second.1, last, List.append_nil]
    have stop : c₁.advance c₁.remaining = c' := by
      refine Cursor.eq_of_toList ?_ ?_
      · simp [Cursor.advance, Cursor.remaining, all, second.2]
      · simp [Cursor.advance, Cursor.remaining, last]
    refine ⟨_, c₁, first, c₁.rest, c', by rw [stop], ?_⟩
    rw [all, ← methods]
    rfl

/-- The advertisement as it is read again: its methods are the ones that their
bytes name, and those of byte zero pass for padding. -/
def seen (a : Advertisement) : Advertisement :=
  ⟨a.initialDataLength, ((a.emitted.map AuthMethod.byte).filter (· ≠ 0)).map AuthMethod.ofByte⟩

theorem emitted_of_not_mem {a : Advertisement} (listed : AuthMethod.noAuth ∉ a.methods) :
    a.emitted = a.methods := by
  refine List.filter_eq_self.mpr fun m hm => decide_eq_true ?_
  rintro rfl
  exact listed hm

/-- Canonical methods are found again, unless one of them is no-authentication. -/
theorem seen_of_canonical {a : Advertisement} (canonical : ∀ m ∈ a.methods, m.Canonical)
    (listed : AuthMethod.noAuth ∉ a.methods) : a.seen = a := by
  have kept : (a.methods.map AuthMethod.byte).filter (· ≠ 0) = a.methods.map AuthMethod.byte := by
    rw [List.filter_eq_self]
    intro b hb
    obtain ⟨m, hm, rfl⟩ := List.mem_map.mp hb
    have ne : m ≠ .noAuth := fun same => listed (same ▸ hm)
    simpa using (canonical m hm).byte_ne_zero ne
  rw [seen, emitted_of_not_mem listed, kept, List.map_map]
  exact congrArg (Advertisement.mk _) ((List.map_congr_left canonical).trans (List.map_id _))

/-- Zeros behind an advertisement are no methods. -/
theorem on_readBody_of_padded {a : Advertisement} {n : Nat} {c c' : Cursor}
    (passed : c.Passes (a.pieces.flatten ++ List.replicate n 0) c') (last : c'.rest = []) :
    readBody.on c = (.ok a.seen, c') := by
  rw [pieces_flatten, List.append_assoc] at passed
  refine on_readBody_eq_ok.mpr ⟨_, passed, last, ?_⟩
  have padding : (List.replicate n (0 : UInt8)).filter (· ≠ 0) = [] := by simp
  rw [List.filter_append, padding, List.append_nil, seen]

end Advertisement

end Socks6
