/-
# Socks6.Proofs.Offering — what a peer makes of the methods that are offered

A set offers methods, and a block shows their bytes.  A peer that reads the block
takes a byte of zero for padding, and refuses an advertisement as a whole if it
finds the byte of no-acceptable in it.  Neither of the two methods can be offered
under its own name.  But a method that has a name can also be given as `other`
with the byte of that name, and then it is told apart from the named one in the
set and not on the wire.

`OptionSet.read_offered` says what a peer finds, for every set that can arise: the
offered bytes but for zeros, unless one of them is the byte of no-acceptable, and
then nothing at all.  Where the methods are canonical, the bytes are strictly
ascending and neither of the two is among them, so the peer finds all.  Where they
are not, it may not (`OptionSet.other_offered`).

Only one record of the block matters, since no other touches what a set says about
methods (`OptionSet.methods_absorbAll`).
-/
import Socks6.Proofs.Accounting
import Socks6.Proofs.Invariant

namespace Socks6

open CursorM

/-! ## Methods and their bytes -/

namespace AuthMethod

variable {m n : AuthMethod}

theorem ofByte_eq_noAcceptable {b : UInt8} : ofByte b = .noAcceptable ↔ b = 0xFF := by
  constructor
  · intro same
    rw [← byte_ofByte b, same]
    rfl
  · rintro rfl
    rfl

theorem Canonical.two_lt {code : UInt8} (h : (other code).Canonical) : 2 < code.toNat := by
  have unnamed : ofByte code = .other code := h
  by_contra low
  have named : code.toNat = 0 ∨ code.toNat = 1 ∨ code.toNat = 2 := by omega
  rcases named with zero | one | two
  · obtain rfl : code = 0 := UInt8.toNat_inj.mp zero
    exact absurd unnamed (by decide)
  · obtain rfl : code = 1 := UInt8.toNat_inj.mp one
    exact absurd unnamed (by decide)
  · obtain rfl : code = 2 := UInt8.toNat_inj.mp two
    exact absurd unnamed (by decide)

/-- The place of a canonical method that can be offered depends on its byte alone. -/
theorem Canonical.rank_eq (h : m.Canonical) (offered : m ≠ .noAcceptable) :
    m.rank = if m.byte.toNat ≤ 2 then m.byte.toNat else 4 + m.byte.toNat := by
  cases m with
  | noAcceptable => exact absurd rfl offered
  | other code => rw [byte, if_neg (Nat.not_le_of_lt h.two_lt), rank]
  | _ => rfl

theorem Canonical.byte_lt_byte (hm : m.Canonical) (hn : n.Canonical) (m_offered : m ≠ .noAcceptable)
    (n_offered : n ≠ .noAcceptable) (before : m.rank < n.rank) : m.byte < n.byte := by
  rw [hm.rank_eq m_offered, hn.rank_eq n_offered] at before
  refine UInt8.lt_iff_toNat_lt.mpr ?_
  split at before <;> split at before <;> omega

end AuthMethod

namespace Advertisement

theorem bytes_seen (a : Advertisement) :
    a.seen.emitted.map AuthMethod.byte = (a.emitted.map AuthMethod.byte).filter (· ≠ 0) := by
  have named : AuthMethod.noAuth ∉ a.seen.methods := by
    intro listed
    obtain ⟨b, hb, none⟩ := List.mem_map.mp listed
    have zero : b = 0 := by
      rw [← AuthMethod.byte_ofByte b, none]
      rfl
    exact of_decide_eq_true (List.mem_filter.mp hb).2 zero
  rw [emitted_of_not_mem named, seen, List.map_map]
  exact (List.map_congr_left fun b _ => AuthMethod.byte_ofByte b).trans (List.map_id _)

theorem validate_seen {a : Advertisement} (short : a.initialDataLength ≤ maxInitialData) :
    a.seen.validate = .ok () ↔ 0xFF ∉ a.emitted.map AuthMethod.byte := by
  rw [validate_eq_ok, and_iff_right (show a.seen.initialDataLength ≤ _ from short), not_iff_not,
    seen, List.mem_map]
  simp only [AuthMethod.ofByte_eq_noAcceptable, exists_eq_right, List.mem_filter]
  exact and_iff_left (by decide)

end Advertisement

theorem MethodGroup.merge_empty {a : Advertisement} (valid : a.validate = .ok ()) :
    empty.merge a = .ok ⟨MethodSet.empty.insertAll a.emitted,
      if a.initialDataLength = 0 then none else some a.initialDataLength, .noAuth⟩ := by
  refine merge_eq_ok.mpr ⟨valid, _, ?_, rfl⟩
  split <;> rfl

/-- The frame holds an advertisement in this kind of envelope. -/
def Frame.Advertises (mode : Mode) (f : Frame) : Prop :=
  ∃ a, f.interpret mode = .ok (.advertisement a)

namespace OptionSet

variable {s t : OptionSet} {a : Advertisement} {retain : Bool} {p : PlacedFrame}
  {ps : List PlacedFrame} {policy : Policy}

/-! ## The record that matters -/

theorem methods_absorb (retain : Bool) (silent : ¬p.frame.Advertises s.mode) :
    ((s.absorb retain p).toOption.getD s).methods = s.methods := by
  rcases taken : s.absorb retain p with e | t
  · rfl
  · obtain ⟨o, held, -, applied⟩ := absorb_eq_ok.mp taken
    obtain ⟨-, made⟩ := apply_eq_ok.mp applied
    cases o with
    | advertisement a => exact absurd ⟨a, held⟩ silent
    | raw f =>
        obtain ⟨-, rfl⟩ := made
        rfl
    | _ =>
        obtain ⟨g, -, rfl⟩ := made
        rfl

theorem methods_absorbAll (retain : Bool) (silent : ∀ p ∈ ps, ¬p.frame.Advertises s.mode) :
    (s.absorbAll retain ps).1.methods = s.methods := by
  induction ps generalizing s with
  | nil => rfl
  | cons p ps ih =>
      obtain ⟨first, others⟩ := List.forall_mem_cons.mp silent
      rw [← s.mode_absorb retain p] at others
      rw [fst_absorbAll_cons, ih others, methods_absorb retain first]

/-- An advertisement is absorbed exactly if the group takes it. -/
theorem absorb_advertisement (retain : Bool) (kind : s.mode = .request)
    (held : p.frame.interpret s.mode = .ok (.advertisement a)) :
    ((s.absorb retain p).toOption.getD s).methods = (s.methods.merge a).toOption.getD s.methods ∧
      ((∃ e, s.absorb retain p = .error e) ↔ ∃ e, s.methods.merge a = .error e) := by
  rcases merged : s.methods.merge a with e | g
  · have refused : ∃ e, s.absorb retain p = .error e := by
      rcases taken : s.absorb retain p with e | t
      · exact ⟨e, rfl⟩
      · obtain ⟨o, held', -, applied⟩ := absorb_eq_ok.mp taken
        cases held.symm.trans held'
        obtain ⟨-, g, merged', -⟩ := apply_eq_ok.mp applied
        cases merged.symm.trans merged'
    refine ⟨?_, iff_of_true refused ⟨e, rfl⟩⟩
    obtain ⟨e', dropped⟩ := refused
    rw [dropped]
    rfl
  · have taken : s.absorb retain p = .ok { s with methods := g } := by
      refine absorb_eq_ok.mpr ⟨_, held, Bool.or_true _, apply_eq_ok.mpr ⟨?_, g, merged, rfl⟩⟩
      rw [kind]
      rfl
    rw [taken]
    exact ⟨rfl, iff_of_false nofun nofun⟩

/-- Of frames among which there is one advertisement, this one decides what is said
about methods. -/
theorem absorbAll_advertisement (retain : Bool) {before after : List PlacedFrame}
    (apart : (before ++ p :: after).Pairwise fun p q => p.offset < q.offset)
    (kind : s.mode = .request) (held : p.frame.interpret s.mode = .ok (.advertisement a))
    (silent : ∀ q ∈ before ++ after, ¬q.frame.Advertises s.mode) :
    (s.absorbAll retain (before ++ p :: after)).1.methods =
        (s.methods.merge a).toOption.getD s.methods ∧
      ((∃ e ∈ (s.absorbAll retain (before ++ p :: after)).2, e.Drops p) ↔
        ∃ e, s.methods.merge a = .error e) := by
  obtain ⟨front, back⟩ := List.forall_mem_append.mp silent
  have methods := methods_absorbAll retain front
  have mode := s.mode_absorbAll retain before
  rw [drops_iff apart, fst_absorbAll_append, fst_absorbAll_cons, ← methods]
  generalize (s.absorbAll retain before).1 = u at mode
  rw [← mode] at kind held back
  obtain ⟨made, dropped⟩ := absorb_advertisement retain kind held
  rw [← u.mode_absorb retain p] at back
  exact ⟨(methods_absorbAll retain back).trans made, dropped⟩

/-! ## What is offered -/

/-- The bytes of the offered methods, in the order in which they are written. -/
def offered (s : OptionSet) : Bytes := s.methods.advertised.toList.map AuthMethod.byte

namespace Lawful

/-- The bytes of canonical methods ascend, and no method is among them that cannot
be offered. -/
theorem offered_of_canonical (h : s.Lawful) (canonical : s.Canonical) :
    s.offered.Pairwise (· < ·) ∧ 0 ∉ s.offered ∧ 0xFF ∉ s.offered := by
  have offerable := h.inDomain.advertised
  refine ⟨?_, fun zero => ?_, fun last => ?_⟩
  · rw [offered, List.pairwise_map]
    refine s.methods.advertised.ascending.imp_of_mem fun hm hn before => ?_
    exact (canonical _ hm).byte_lt_byte (canonical _ hn) (offerable _ hm).2 (offerable _ hn).2
      before
  · obtain ⟨m, hm, byte⟩ := List.mem_map.mp zero
    exact (canonical m hm).byte_ne_zero (offerable m hm).1 byte
  · obtain ⟨m, hm, byte⟩ := List.mem_map.mp last
    have named : AuthMethod.ofByte m.byte = m := canonical m hm
    rw [byte] at named
    exact (offerable m hm).2 named.symm

theorem emitted_advertisement (h : s.Lawful) (described : s.methods.advertisement = some a) :
    a.emitted = s.methods.advertised.toList := by
  obtain ⟨-, rfl⟩ := MethodGroup.advertisement_eq_some.mp described
  exact Advertisement.emitted_of_not_mem h.noAuth_not_advertised

theorem frame_advertisement (h : s.Lawful) (described : s.methods.advertisement = some a) :
    ∃ gap, (OptionRecord.advertisement a).frame =
      ⟨2, Bytes.ofUInt16 a.initialDataLength ++ (s.offered ++ List.replicate gap 0)⟩ := by
  rw [OptionRecord.frame_of_interpreted rfl,
    show (OptionRecord.advertisement a).pieces = a.pieces from rfl, Advertisement.pieces_flatten,
    h.emitted_advertisement described, List.append_assoc]
  exact ⟨_, rfl⟩

/-- A group that says nothing refuses what is offered if no-acceptable is found in
it, and else takes it over but for zeros. -/
theorem merge_seen (h : s.Lawful) (described : s.methods.advertisement = some a) :
    (0xFF ∈ s.offered → ∃ e, MethodGroup.empty.merge a.seen = .error e) ∧
    (0xFF ∉ s.offered → ∃ g, MethodGroup.empty.merge a.seen = .ok g ∧
      g.initialDataLength = s.methods.initialDataLength ∧
      ∀ x, x ∈ g.advertised.toList.map AuthMethod.byte ↔ x ∈ s.offered ∧ x ≠ 0) := by
  have listed : .advertisement a ∈ s.records := mem_records.mpr described
  have inRange := (h.admissible listed).inRange _ rfl
  have emitted := h.emitted_advertisement described
  have valid := Advertisement.validate_seen (Advertisement.validate_eq_ok.mp inRange).1
  rw [emitted] at valid
  constructor
  · intro last
    rcases merged : MethodGroup.empty.merge a.seen with e | g
    · exact ⟨e, rfl⟩
    · exact absurd last (valid.mp (MethodGroup.merge_eq_ok.mp merged).1)
  · intro acceptable
    refine ⟨_, MethodGroup.merge_empty (valid.mpr acceptable), ?_, fun x => ?_⟩
    · obtain ⟨-, rfl⟩ := MethodGroup.advertisement_eq_some.mp described
      have positive := h.initialDataLength_ne_zero
      rcases length : s.methods.initialDataLength with _ | n
      · rw [Advertisement.seen, Option.getD_none]
        rfl
      · rw [length] at positive
        exact if_neg fun zero => positive (congrArg some zero)
    · have found : x ∈ a.seen.emitted.map AuthMethod.byte ↔ x ∈ s.offered ∧ x ≠ 0 := by
        rw [a.bytes_seen, emitted, List.mem_filter, decide_eq_true_iff]
        rfl
      rw [← found]
      simp only [List.mem_map, MethodSet.mem_insertAll]
      simp [MethodSet.empty]

end Lawful

/-! ## Reading what is offered -/

/-- The advertisement stands among records that are none, behind the settings and
the tokens. -/
theorem exists_records_advertisement (described : s.methods.advertisement = some a) :
    ∃ front back, s.records = front ++ .advertisement a :: back ∧
      front.length = s.stack.settings.length + s.tokens.options.length ∧
      ∀ o ∈ front ++ back, ∀ a, o ≠ .advertisement a := by
  refine ⟨s.stack.settings.map .stack ++ s.tokens.options.map .token,
    s.authData.data.toList.map .authData ++ s.session.signals.map .session ++ s.raw.map .raw,
    by simp [records, described], by simp, ?_⟩
  rintro _ listed b rfl
  simp at listed

/-- In a request there are at most ten records in front of the advertisement. -/
theorem Confined.length_front_le (h : s.Confined) (kind : s.mode = .request) :
    s.stack.settings.length + s.tokens.options.length ≤ 10 := by
  rw [Confined, kind] at h
  obtain ⟨multipath, -, -, -, noWindow, noReply, -, -⟩ := h
  have settings := s.stack.sum_settings fun _ => 1
  have none : s.stack.multipath.entries.length = 0 := by
    rw [multipath]
    rfl
  have tos := s.stack.tos.length_entries_le
  have fastOpen := s.stack.fastOpen.length_entries_le
  have scheduler := s.stack.scheduler.length_entries_le
  have backlog := s.stack.backlog.length_entries_le
  have request : s.tokens.windowRequest.toList.length ≤ 1 := Option.length_toList_le
  have token : s.tokens.token.toList.length ≤ 1 := Option.length_toList_le
  have options : s.tokens.options.length =
      s.tokens.windowRequest.toList.length + s.tokens.token.toList.length := by
    simp [TokenGroup.options, noWindow, noReply]
  simp only [List.map_const', List.sum_replicate, smul_eq_mul, mul_one] at settings
  omega

/-- A record of a set is cut off its block at its place, behind the records in front
of it and before some of the others, unless the limit is used up. -/
theorem exists_frames_block {o : OptionRecord} {front back : List OptionRecord}
    (split : s.records = front ++ o :: back) (fits : s.recordsSize ≤ Frame.maxBlock) (limit : Nat)
    (room : front.length < limit) :
    let before := front.map OptionRecord.frame
    ∃ after, ((Cursor.ofBytes s.block).frames limit).1 = PlacedFrame.inOrder 0 before ++
        ⟨(before.flatMap Frame.bytes).length, o.frame⟩ :: after ∧
      ∀ q ∈ after, q.frame ∈ back.map OptionRecord.frame := by
  intro before
  obtain ⟨n, rfl⟩ : ∃ n, limit = before.length + (n + 1) :=
    ⟨limit - front.length - 1, by rw [List.length_map]; omega⟩
  rw [frames_block fits, split, List.map_append, List.map_cons, List.take_length_add_append,
    List.take_succ_cons, PlacedFrame.inOrder_append, Nat.zero_add]
  exact ⟨_, rfl, fun q hq => List.mem_of_mem_take (PlacedFrame.frame_mem_of_mem_inOrder hq)⟩

theorem Lawful.not_advertises {o : OptionRecord} (h : s.Lawful) (listed : o ∈ s.records)
    (other : ∀ a, o ≠ .advertisement a) : ¬o.frame.Advertises s.mode := by
  rintro ⟨a, held⟩
  rw [OptionRecord.interpret_frame (h.readable_of_ne listed other)] at held
  exact other a (Except.ok.inj held)

theorem methods_ofBlock_of_none (lawful : s.Lawful) (undescribed : s.methods.advertisement = none)
    (fits : s.recordsSize ≤ Frame.maxBlock) :
    (ofBlock s.mode policy s.block).1.methods = .empty := by
  rw [fst_ofBlock, frames_block fits]
  refine methods_absorbAll _ fun p hp => ?_
  have among := List.mem_of_mem_take (PlacedFrame.frame_mem_of_mem_inOrder hp)
  obtain ⟨o, listed, same⟩ := List.mem_map.mp among
  rw [← same]
  refine lawful.not_advertises listed ?_
  rintro a rfl
  cases undescribed.symm.trans (mem_records.mp listed)

/-- Of the records of a block that was written, the advertisement alone decides
what is read about methods. -/
theorem methods_ofBlock (lawful : s.Lawful) (described : s.methods.advertisement = some a)
    (fits : s.recordsSize ≤ Frame.maxBlock) (room : 10 < policy.maxOptions) :
    ∃ before after,
      s.records.map OptionRecord.frame =
        before ++ (OptionRecord.advertisement a).frame :: after ∧
      (ofBlock s.mode policy s.block).1.methods =
        (MethodGroup.empty.merge a.seen).toOption.getD .empty ∧
      ((∃ e ∈ (ofBlock s.mode policy s.block).2, e.Drops
          ⟨(before.flatMap Frame.bytes).length, (OptionRecord.advertisement a).frame⟩) ↔
        ∃ e, MethodGroup.empty.merge a.seen = .error e) := by
  obtain ⟨front, back, split, length, others⟩ := exists_records_advertisement described
  have listed : .advertisement a ∈ s.records := mem_records.mpr described
  have kind : s.mode = .request := of_decide_eq_true (lawful.admissible listed).allowed
  have few := lawful.confined.length_front_le kind
  obtain ⟨after, cut, behind⟩ := exists_frames_block split fits policy.maxOptions (by omega)
  have silent : ∀ q ∈ PlacedFrame.inOrder 0 (front.map OptionRecord.frame) ++ after,
      ¬q.frame.Advertises s.mode := by
    intro q hq advertises
    have among : q.frame ∈ (front ++ back).map OptionRecord.frame := by
      rw [List.map_append, List.mem_append]
      exact (List.mem_append.mp hq).imp PlacedFrame.frame_mem_of_mem_inOrder (behind q)
    obtain ⟨o, ho, same⟩ := List.mem_map.mp among
    have listed : o ∈ s.records := by
      rw [split]
      exact ((List.sublist_cons_self _ back).append_left front).subset ho
    rw [← same] at advertises
    exact lawful.not_advertises listed (others o ho) advertises
  have apart := (Cursor.ofBytes s.block).pairwise_frames policy.maxOptions
  rw [cut] at apart
  obtain ⟨made, dropped⟩ := absorbAll_advertisement (s := empty s.mode)
    policy.retainUnrecognized apart kind (OptionRecord.interpret_advertisement s.mode a) silent
  refine ⟨front.map OptionRecord.frame, back.map OptionRecord.frame, ?_, ?_, ?_⟩
  · rw [split, List.map_append, List.map_cons]
  · rw [fst_ofBlock, cut]
    exact made
  · rw [snd_ofBlock, cut]
    refine Iff.trans (exists_congr fun e => and_congr_left fun drops => ?_) dropped
    rw [List.mem_append, or_iff_left_iff_imp]
    intro ending
    exact absurd drops (BlockEnd.not_drops ending _)

theorem drops_ofBlock_iff (lawful : s.Lawful) (described : s.methods.advertisement = some a)
    (fits : s.recordsSize ≤ Frame.maxBlock) (room : 10 < policy.maxOptions) :
    ∃ before after gap,
      let frame : Frame :=
        ⟨2, Bytes.ofUInt16 a.initialDataLength ++ (s.offered ++ List.replicate gap 0)⟩
      s.bytes = wire (before ++ frame :: after) ∧
      ((∃ e ∈ (ofBlock s.mode policy s.block).2,
          e.Drops ⟨(before.flatMap Frame.bytes).length, frame⟩) ↔ 0xFF ∈ s.offered) := by
  obtain ⟨before, after, frames, -, dropped⟩ := methods_ofBlock lawful described fits room
  obtain ⟨gap, shown⟩ := lawful.frame_advertisement described
  obtain ⟨refused, taken⟩ := lawful.merge_seen described
  rw [shown] at frames dropped
  refine ⟨before, after, gap, ?_, dropped.trans ⟨fun failed => ?_, refused⟩⟩
  · rw [bytes_eq_wire, frames]
  · by_contra acceptable
    obtain ⟨e, failed⟩ := failed
    obtain ⟨g, merged, -⟩ := taken acceptable
    cases failed.symm.trans merged

theorem methods_ofBlock_of_mem (lawful : s.Lawful) (last : 0xFF ∈ s.offered)
    (fits : s.recordsSize ≤ Frame.maxBlock) (room : 10 < policy.maxOptions) :
    (ofBlock s.mode policy s.block).1.methods = .empty := by
  obtain ⟨m, hm, -⟩ := List.mem_map.mp last
  obtain ⟨a, described⟩ := Lawful.exists_advertisement (.inl (List.ne_nil_of_mem hm))
  obtain ⟨-, -, -, made, -⟩ := methods_ofBlock lawful described fits room
  obtain ⟨e, merged⟩ := (lawful.merge_seen described).1 last
  rw [made, merged]
  rfl

theorem offered_ofBlock (lawful : s.Lawful) (acceptable : 0xFF ∉ s.offered)
    (fits : s.recordsSize ≤ Frame.maxBlock) (room : 10 < policy.maxOptions) :
    (ofBlock s.mode policy s.block).1.methods.initialDataLength = s.methods.initialDataLength ∧
      ∀ x, x ∈ (ofBlock s.mode policy s.block).1.offered ↔ x ∈ s.offered ∧ x ≠ 0 := by
  rcases described : s.methods.advertisement with _ | a
  · obtain ⟨none, silent⟩ := MethodGroup.advertisement_eq_none.mp described
    rw [offered, offered, methods_ofBlock_of_none lawful described fits, none, silent]
    exact ⟨rfl, by simp [MethodGroup.empty, MethodSet.empty]⟩
  · obtain ⟨-, -, -, made, -⟩ := methods_ofBlock lawful described fits room
    obtain ⟨g, merged, length, bytes⟩ := (lawful.merge_seen described).2 acceptable
    rw [merged] at made
    rw [offered, made]
    exact ⟨length, bytes⟩

/-- What is written for a set shows the bytes of its methods, in one record.  A peer
drops that record exactly if the byte of no-acceptable is among them, and then
finds nothing; else it finds the same length and all bytes but zero.  The bytes of
canonical methods ascend, and neither of the two is among them. -/
theorem read_offered {b : Bytes} {c c' : Cursor} (arises : s.Reachable)
    (written : s.write.on c = (.ok (), c')) (added : c'.passed.toList = c.passed.toList ++ b)
    (room : 10 < policy.maxOptions) (behind : Bytes) :
    ∃ t events,
      (OptionSet.read s.mode policy).on (.ofBytes (b ++ behind)) =
        (.ok (t, events), ⟨b.toArray, behind⟩) ∧
      (∀ a, s.methods.advertisement = some a → ∃ before after gap,
        let frame : Frame :=
          ⟨2, Bytes.ofUInt16 a.initialDataLength ++ (s.offered ++ List.replicate gap 0)⟩
        b = wire (before ++ frame :: after) ∧
        ((∃ e ∈ events, e.Drops ⟨(before.flatMap Frame.bytes).length, frame⟩) ↔
          0xFF ∈ s.offered)) ∧
      (0xFF ∈ s.offered → t.methods = .empty) ∧
      (0xFF ∉ s.offered → t.methods.initialDataLength = s.methods.initialDataLength ∧
        ∀ x, x ∈ t.offered ↔ x ∈ s.offered ∧ x ≠ 0) ∧
      (s.Canonical → s.offered.Pairwise (· < ·) ∧ 0 ∉ s.offered ∧ 0xFF ∉ s.offered) := by
  have lawful := arises.lawful
  obtain ⟨fits, -, -, puts⟩ := (s.writes c c').mp written
  obtain rfl : b = s.bytes := List.append_cancel_left (added.symm.trans puts)
  have read : (OptionSet.read s.mode policy).on (.ofBytes (s.bytes ++ behind)) =
      (.ok ((ofBlock s.mode policy s.block).1, (ofBlock s.mode policy s.block).2),
        ⟨s.bytes.toArray, behind⟩) := on_read_bytes fits Cursor.passes_ofBytes
  refine ⟨_, _, read, fun a described => ?_, fun last => ?_, fun acceptable => ?_,
    lawful.offered_of_canonical⟩
  · exact drops_ofBlock_iff lawful described fits room
  · exact methods_ofBlock_of_mem lawful last fits room
  · exact offered_ofBlock lawful acceptable fits room

/-- A setting, and three methods with an announced length, offered in any order. -/
theorem read_offered_three :
    let s := (empty .request).run [.advertiseMethod (.other 128), .tos .both 7,
      .advertiseMethod .usernamePassword, .initialDataLength 5, .advertiseMethod .gssapi]
    let b : Bytes := [0, 20, 0, 1, 0, 8, 3, 1, 1, 7, 0, 2, 0, 12, 0, 5, 1, 2, 128, 0, 0, 0]
    s.Reachable ∧ s.write.on (.ofBytes (List.replicate 22 0)) = (.ok (), ⟨b.toArray, []⟩) ∧
    10 < Policy.strict.maxOptions ∧
    ∃ t events,
      (OptionSet.read .request .strict).on (.ofBytes (b ++ [9])) =
        (.ok (t, events), ⟨b.toArray, [9]⟩) ∧
      t.methods.initialDataLength = some 5 ∧
      ∀ x, x ∈ t.offered ↔ x ∈ ([1, 2, 128] : Bytes) ∧ x ≠ 0 := by
  intro s b
  have arises : s.Reachable := Reachable.run (.empty .request) _
  have written : s.write.on (.ofBytes (List.replicate 22 0)) = (.ok (), ⟨b.toArray, []⟩) :=
    (s.writes _ _).mpr ⟨by decide, by decide, by decide, by decide⟩
  have room : 10 < Policy.strict.maxOptions := by decide
  obtain ⟨t, events, read, -, -, found, -⟩ := read_offered arises written rfl room [9]
  obtain ⟨length, bytes⟩ := found (by decide)
  exact ⟨arises, written, room, t, events, read, length, bytes⟩

/-- The byte of no-acceptable is offered as another method, and a peer finds nothing
of what is offered with it. -/
theorem other_offered :
    let s := (empty .request).run [.advertiseMethod .gssapi, .advertiseMethod (.other 0xFF)]
    let b : Bytes := [0, 8, 0, 2, 0, 8, 0, 0, 1, 0xFF]
    s.Reachable ∧ s.encode = .ok b ∧ s.offered = [1, 0xFF] ∧
    ∃ t events,
      (OptionSet.read .request .passthrough).on (.ofBytes b) =
        (.ok (t, events), ⟨b.toArray, []⟩) ∧
      (∃ e ∈ events, e.Drops ⟨0, ⟨2, [0, 0, 1, 0xFF]⟩⟩) ∧ t.offered = [] := by
  intro s b
  have arises : s.Reachable := Reachable.run (.empty .request) _
  have encoded : s.encode = .ok b := encode_eq_ok.mpr ⟨by decide, by decide⟩
  let block : Bytes := [0, 2, 0, 8, 0, 0, 1, 0xFF]
  have framed : counted block = b := by decide
  have there : (Cursor.ofBytes (counted block ++ [])).Passes (counted block)
      ⟨(counted block).toArray, []⟩ := Cursor.passes_ofBytes
  have read : (OptionSet.read .request .passthrough).on (.ofBytes (counted block ++ [])) =
      (.ok ((ofBlock .request .passthrough block).1, (ofBlock .request .passthrough block).2),
        ⟨(counted block).toArray, []⟩) :=
    on_read_eq_ok.mpr ⟨block, by decide, there, rfl⟩
  rw [List.append_nil, framed] at read
  exact ⟨arises, encoded, by decide, _, _, read, by decide, by decide⟩

end OptionSet

end Socks6
