/-
# Socks6.Proofs.Head — heads and their parts, on the wire and off it

For each part of a head — short string, address, version — the bytes it takes
are given by a function, and two equivalences tie the writer and the reader to
it.  Together they make the part a bijective code: one value, one string of
bytes, and no other bytes are accepted.

Two conditions occur.  An address is *proper* if its domain is a name; only
proper ones are written or read.  A method is *canonical* if its byte names it;
a head whose method is not is written like the one whose method is.
-/
import Socks6.Head
import Socks6.Proofs.Writing

namespace Socks6

open CursorM

/-! ## Short strings and addresses -/

namespace ShortString

theorem pieces_flatten (s : ShortString) :
    s.pieces.flatten = UInt8.ofNat s.length :: s.bytes := by
  simp [pieces]

theorem checkName_eq_ok {s : ShortString} {field : String} :
    s.checkName field = .ok () ↔ s.bytes ≠ [] ∧ ∀ b ∈ s.bytes, b ≠ 0 := by
  have noZero : s.bytes.findIdx? (· == 0) = none ↔ ∀ b ∈ s.bytes, b ≠ 0 := by
    simp [List.findIdx?_eq_none_iff]
  rw [checkName, ← noZero]
  by_cases empty : s.bytes = []
  · simp [empty]
  · rcases s.bytes.findIdx? (· == 0) <;> simp [empty]

theorem writes (s : ShortString) : Writes s.write True s.pieces.flatten := .writeAll s.pieces

theorem on_read_eq_ok {s : ShortString} {c c' : Cursor} :
    ShortString.read.on c = (.ok s, c') ↔ c.Passes s.pieces.flatten c' := by
  have one : s.pieces.flatten = [UInt8.ofNat s.length] ++ s.bytes := pieces_flatten s
  have fits : (UInt8.ofNat s.length).toNat = s.length :=
    UInt8.toNat_ofNat_of_lt' (Nat.lt_succ_of_le s.length_le)
  simp only [ShortString.read, on_bind_eq_ok, on_readU8_eq_ok, CursorM.on_read_eq_ok,
    on_pure_eq_ok, one, Cursor.passes_append]
  constructor
  · intro h
    obtain ⟨length, c₁, first, bs, _, second, rfl, rfl⟩ := h
    have same : UInt8.ofNat bs.val.length = length := by rw [bs.property, UInt8.ofNat_toNat]
    refine ⟨c₁, ?_, second⟩
    rw [ShortString.length, same]
    exact first
  · intro h
    obtain ⟨c₁, first, second⟩ := h
    exact ⟨_, c₁, first, ⟨s.bytes, fits.symm⟩, c', second, rfl, rfl⟩

end ShortString

namespace Address

/-- A domain is a name. -/
def Proper : Address → Prop
  | .domain name => name.checkName "domain" = .ok ()
  | _ => True

def payload : Address → Bytes
  | .ipv4 octets => octets.val
  | .ipv6 octets => octets.val
  | .domain name => name.pieces.flatten

def bytes (a : Address) : Bytes := [Coded.byte a.type] ++ a.payload

theorem length_bytes (a : Address) : a.bytes.length = a.size := by
  cases a with
  | ipv4 octets => simp [bytes, payload, size, octets.property, Nat.add_comm]
  | ipv6 octets => simp [bytes, payload, size, octets.property, Nat.add_comm]
  | domain name =>
      rw [bytes, List.length_append, payload, ShortString.length_pieces]
      rfl

theorem writes (a : Address) : Writes a.write a.Proper a.bytes := by
  refine .andThen (.writeU8 _) ?_
  cases a with
  | ipv4 octets => exact .write octets.val
  | ipv6 octets => exact .write octets.val
  | domain name => exact (name.writes.check).congr (iff_of_eq (and_true _))

theorem on_readPayload_eq_ok {type : AddressType} {a : Address} {c c' : Cursor} :
    (readPayload type).on c = (.ok a, c') ↔
      a.type = type ∧ a.Proper ∧ c.Passes a.payload c' := by
  cases type with
  | ipv4 =>
      simp only [readPayload, on_bind_eq_ok, CursorM.on_read_eq_ok, on_pure_eq_ok]
      constructor
      · intro h
        obtain ⟨octets, _, first, rfl, rfl⟩ := h
        exact ⟨rfl, trivial, first⟩
      · intro h
        obtain ⟨tag, -, first⟩ := h
        cases a with
        | ipv4 octets => exact ⟨octets, c', first, rfl, rfl⟩
        | ipv6 octets => cases tag
        | domain name => cases tag
  | ipv6 =>
      simp only [readPayload, on_bind_eq_ok, CursorM.on_read_eq_ok, on_pure_eq_ok]
      constructor
      · intro h
        obtain ⟨octets, _, first, rfl, rfl⟩ := h
        exact ⟨rfl, trivial, first⟩
      · intro h
        obtain ⟨tag, -, first⟩ := h
        cases a with
        | ipv4 octets => cases tag
        | ipv6 octets => exact ⟨octets, c', first, rfl, rfl⟩
        | domain name => cases tag
  | domain =>
      simp only [readPayload, on_bind_eq_ok, ShortString.on_read_eq_ok, on_ofExcept_eq_ok,
        on_pure_eq_ok]
      constructor
      · intro h
        obtain ⟨name, _, first, _, _, ⟨proper, rfl⟩, rfl, rfl⟩ := h
        exact ⟨rfl, proper, first⟩
      · intro h
        obtain ⟨tag, proper, first⟩ := h
        cases a with
        | ipv4 octets => cases tag
        | ipv6 octets => cases tag
        | domain name => exact ⟨name, c', first, (), c', ⟨proper, rfl⟩, rfl, rfl⟩

theorem on_read_eq_ok {a : Address} {c c' : Cursor} :
    Address.read.on c = (.ok a, c') ↔ a.Proper ∧ c.Passes a.bytes c' := by
  simp only [Address.read, on_bind_eq_ok, on_readU8_eq_ok, bytes, Cursor.passes_append]
  constructor
  · intro h
    obtain ⟨tag, c₁, first, second⟩ := h
    split at second
    · rename_i type lookup
      obtain ⟨rfl, proper, passed⟩ := on_readPayload_eq_ok.mp second
      rw [Coded.byte_of_ofCode? lookup]
      exact ⟨proper, c₁, first, passed⟩
    · exact (on_throw_eq_ok.mp second).elim
  · intro h
    obtain ⟨proper, c₁, first, passed⟩ := h
    refine ⟨_, c₁, first, ?_⟩
    rw [Coded.ofCode?_byte]
    exact on_readPayload_eq_ok.mpr ⟨rfl, proper, passed⟩

end Address

/-! ## The version -/

namespace Version

def bytes : Bytes := [current.major, current.minor]

theorem writes : Writes Version.write True bytes := .writeAll _

theorem on_read_eq_ok {v : Version} {c c' : Cursor} :
    Version.read.on c = (.ok v, c') ↔ v = current ∧ c.Passes bytes c' := by
  simp only [Version.read, on_bind_eq_ok, CursorM.on_read_eq_ok]
  constructor
  · intro h
    obtain ⟨⟨pair, two⟩, c₁, first, second⟩ := h
    obtain ⟨major, minor, rfl⟩ := List.length_eq_two.mp two
    split at second
    · rename_i right
      obtain ⟨rfl, rfl⟩ := on_pure_eq_ok.mp second
      refine ⟨rfl, ?_⟩
      rw [bytes, ← right.1, ← right.2]
      exact first
    · exact (on_throw_eq_ok.mp second).elim
  · intro h
    obtain ⟨rfl, first⟩ := h
    exact ⟨⟨bytes, rfl⟩, c', first, on_pure _ _⟩

end Version

/-! ## Heads -/

/-- The byte of the method names it. -/
def AuthMethod.Canonical (m : AuthMethod) : Prop := ofByte m.byte = m

instance (m : AuthMethod) : Decidable m.Canonical :=
  inferInstanceAs (Decidable (AuthMethod.ofByte m.byte = m))

theorem AuthMethod.canonical_ofByte (b : UInt8) : (ofByte b).Canonical := by
  rw [Canonical, byte_ofByte]

namespace Head

/-- The address, if there is one, is proper. -/
def Proper : Head → Prop
  | .request _ _ address => address.Proper
  | .authReply _ _ => True
  | .operationReply _ _ _ address => address.Proper

/-- The method, if there is one, is canonical. -/
def Canonical : Head → Prop
  | .authReply _ method => method.Canonical
  | _ => True

/-- What is written behind the version. -/
def fields : Head → Bytes
  | .request code port address => [Coded.byte code] ++ (Bytes.ofUInt16 port ++ address.bytes)
  | .authReply code method => [Coded.byte code] ++ [method.byte]
  | .operationReply code initialDataOffset port address =>
    [Coded.byte code] ++
      (Bytes.ofUInt16 initialDataOffset ++ (Bytes.ofUInt16 port ++ address.bytes))

def bytes (h : Head) : Bytes := Version.bytes ++ h.fields

theorem length_bytes (h : Head) : h.bytes.length = h.size := by
  cases h with
  | request code port address =>
      simp [bytes, fields, size, Address.length_bytes, Version.bytes, Version.size]
      omega
  | authReply code method => rfl
  | operationReply code initialDataOffset port address =>
      simp [bytes, fields, size, Address.length_bytes, Version.bytes, Version.size]
      omega

theorem writes (h : Head) : Writes h.write h.Proper h.bytes := by
  refine .andThen Version.writes ?_
  cases h with
  | request code port address =>
      exact .andThen (.writeU8 _) (.andThen (.writeU16 _) address.writes)
  | authReply code method => exact .andThen (.writeU8 _) (.writeU8 _)
  | operationReply code initialDataOffset port address =>
      exact .andThen (.writeU8 _) (.andThen (.writeU16 _) (.andThen (.writeU16 _) address.writes))

/-- Exactly the bytes of a proper and canonical head read as that head. -/
theorem on_read_eq_ok {mode : Mode} {h : Head} {c c' : Cursor} :
    (Head.read mode).on c = (.ok h, c') ↔
      h.mode = mode ∧ h.Proper ∧ h.Canonical ∧ c.Passes h.bytes c' := by
  simp only [Head.read, on_bind_eq_ok, Version.on_read_eq_ok, bytes, Cursor.passes_append]
  cases mode with
  | request =>
      simp only [on_bind_eq_ok, on_readCoded_eq_ok, on_readU16_eq_ok, Address.on_read_eq_ok,
        on_pure_eq_ok]
      constructor
      · intro taken
        obtain ⟨_, c₁, ⟨-, version⟩, code, c₂, first, port, c₃, second, address, _, ⟨proper,
          third⟩, rfl, rfl⟩ := taken
        refine ⟨rfl, proper, trivial, c₁, version, ?_⟩
        simp only [fields, Cursor.passes_append]
        exact ⟨c₂, first, c₃, second, third⟩
      · intro taken
        obtain ⟨kind, proper, -, c₁, version, rest⟩ := taken
        cases h with
        | request code port address =>
            simp only [fields, Cursor.passes_append] at rest
            obtain ⟨c₂, first, c₃, second, third⟩ := rest
            exact ⟨_, c₁, ⟨rfl, version⟩, code, c₂, first, port, c₃, second, address, c',
              ⟨proper, third⟩, rfl, rfl⟩
        | authReply code method => cases kind
        | operationReply code initialDataOffset port address => cases kind
  | authReply =>
      simp only [on_bind_eq_ok, on_readCoded_eq_ok, on_readU8_eq_ok, on_pure_eq_ok]
      constructor
      · intro taken
        obtain ⟨_, c₁, ⟨-, version⟩, code, c₂, first, byte, _, second, rfl, rfl⟩ := taken
        refine ⟨rfl, trivial, AuthMethod.canonical_ofByte byte, c₁, version, ?_⟩
        simp only [fields, Cursor.passes_append, AuthMethod.byte_ofByte]
        exact ⟨c₂, first, second⟩
      · intro taken
        obtain ⟨kind, -, canonical, c₁, version, rest⟩ := taken
        cases h with
        | request code port address => cases kind
        | authReply code method =>
            simp only [fields, Cursor.passes_append] at rest
            obtain ⟨c₂, first, second⟩ := rest
            exact ⟨_, c₁, ⟨rfl, version⟩, code, c₂, first, method.byte, c', second,
              congrArg (Head.authReply code) canonical, rfl⟩
        | operationReply code initialDataOffset port address => cases kind
  | operationReply =>
      simp only [on_bind_eq_ok, on_readCoded_eq_ok, on_readU16_eq_ok, Address.on_read_eq_ok,
        on_pure_eq_ok]
      constructor
      · intro taken
        obtain ⟨_, c₁, ⟨-, version⟩, code, c₂, first, initialDataOffset, c₃, second, port, c₄,
          third, address, _, ⟨proper, fourth⟩, rfl, rfl⟩ := taken
        refine ⟨rfl, proper, trivial, c₁, version, ?_⟩
        simp only [fields, Cursor.passes_append]
        exact ⟨c₂, first, c₃, second, c₄, third, fourth⟩
      · intro taken
        obtain ⟨kind, proper, -, c₁, version, rest⟩ := taken
        cases h with
        | request code port address => cases kind
        | authReply code method => cases kind
        | operationReply code initialDataOffset port address =>
            simp only [fields, Cursor.passes_append] at rest
            obtain ⟨c₂, first, c₃, second, c₄, third, fourth⟩ := rest
            exact ⟨_, c₁, ⟨rfl, version⟩, code, c₂, first, initialDataOffset, c₃, second, port, c₄,
              third, address, c', ⟨proper, fourth⟩, rfl, rfl⟩

end Head

end Socks6
