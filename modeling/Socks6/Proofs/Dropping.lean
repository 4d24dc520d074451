/-
# Socks6.Proofs.Dropping — what is dropped leaves no trace

Some records of a block do not reach the set: they are broken, or left out by the
policy, or refused by the set as far as it was read (`OptionSet.Dropped`).  They are
the records that the log reports (`OptionSet.dropped_iff`).  Taking any of them out
of the block gives a block that says the same (`OptionSet.read_without_dropped`).

Events name a record by where it starts, so the first part of this file is about
places: what stands behind one another starts at different ones.  Records that
are moved by taking out others are judged as before, because a set never looks at
the place of a frame (`OptionSet.absorbAll_congr`).
-/
import Socks6.Proofs.Block

namespace Socks6

/-! ## Places -/

namespace PlacedFrame

theorem le_of_mem_inOrder {offset : Nat} {fs : List Frame} {p : PlacedFrame}
    (h : p ∈ inOrder offset fs) : offset ≤ p.offset := by
  induction fs generalizing offset with
  | nil => cases h
  | cons f fs ih =>
      rcases List.mem_cons.mp h with rfl | later
      · exact Nat.le_refl _
      · exact (Nat.le_add_right _ _).trans (ih later)

theorem inOrder_append (offset : Nat) (fs gs : List Frame) :
    inOrder offset (fs ++ gs) =
      inOrder offset fs ++ inOrder (offset + (fs.flatMap Frame.bytes).length) gs := by
  induction fs generalizing offset with
  | nil => rfl
  | cons f fs ih =>
      rw [List.cons_append, inOrder, ih, List.flatMap_cons, List.length_append, Frame.length_bytes,
        Nat.add_assoc]
      rfl

/-- A frame is not empty, so the next one starts behind it. -/
theorem pairwise_inOrder (offset : Nat) (fs : List Frame) :
    (inOrder offset fs).Pairwise fun p q => p.offset < q.offset := by
  induction fs generalizing offset with
  | nil => exact .nil
  | cons f fs ih =>
      refine List.pairwise_cons.mpr ⟨fun q later => ?_, ih _⟩
      have behind := le_of_mem_inOrder later
      have header : 4 ≤ f.size := Nat.le_add_right _ _
      show offset < q.offset
      omega

end PlacedFrame

/-! ## Events of dropping -/

/-- The event says that this record is dropped. -/
def Event.Drops (p : PlacedFrame) : Event → Prop
  | .malformed kind offset _ => kind = p.frame.kind ∧ offset = p.offset
  | .unrecognized kind offset => kind = p.frame.kind ∧ offset = p.offset
  | .refused _ offset _ => offset = p.offset
  | .corrupt .. | .limitReached .. | .decoded .. => False

instance (p : PlacedFrame) : (e : Event) → Decidable (e.Drops p)
  | .malformed kind offset _ | .unrecognized kind offset =>
    inferInstanceAs (Decidable (kind = p.frame.kind ∧ offset = p.offset))
  | .refused _ offset _ => inferInstanceAs (Decidable (offset = p.offset))
  | .corrupt .. | .limitReached .. | .decoded .. => inferInstanceAs (Decidable False)

theorem Event.Drops.offset_eq {e : Event} {p q : PlacedFrame} (hp : e.Drops p) (hq : e.Drops q) :
    p.offset = q.offset := by
  cases e with
  | malformed => exact hp.2.symm.trans hq.2
  | unrecognized => exact hp.2.symm.trans hq.2
  | refused => exact hp.symm.trans hq
  | corrupt => cases hp
  | limitReached => cases hp
  | decoded => cases hp

namespace OptionSet

variable {s t : OptionSet} {retain : Bool} {p : PlacedFrame} {ps qs : List PlacedFrame}

theorem drops_of_absorb {e : Event} (h : s.absorb retain p = .error e) : e.Drops p := by
  unfold absorb at h
  split at h
  · cases h
    exact ⟨rfl, rfl⟩
  · split at h
    · cases h
      exact ⟨rfl, rfl⟩
    · split at h
      · cases h
      · cases h
        rfl

theorem exists_drops_of_mem {e : Event} (h : e ∈ (s.absorbAll retain ps).2) :
    ∃ p ∈ ps, e.Drops p := by
  induction ps generalizing s with
  | nil => cases h
  | cons p ps ih =>
      rcases absorbed : s.absorb retain p with first | t
      · rw [absorbAll_of_error absorbed] at h
        rcases List.mem_cons.mp h with rfl | later
        · exact ⟨p, List.mem_cons_self, drops_of_absorb absorbed⟩
        · obtain ⟨q, hq, drops⟩ := ih later
          exact ⟨q, List.mem_cons_of_mem p hq, drops⟩
      · rw [absorbAll_of_ok absorbed] at h
        obtain ⟨q, hq, drops⟩ := ih h
        exact ⟨q, List.mem_cons_of_mem p hq, drops⟩

/-- A record is reported as dropped exactly if it is not absorbed by the set that
the records in front of it make. -/
theorem drops_iff {before after : List PlacedFrame}
    (apart : (before ++ p :: after).Pairwise fun p q => p.offset < q.offset) :
    (∃ e ∈ (s.absorbAll retain (before ++ p :: after)).2, e.Drops p) ↔
      ∃ e, (s.absorbAll retain before).1.absorb retain p = .error e := by
  -- events of other records name other places, so each step looks at the first record only
  induction before generalizing s with
  | nil =>
      obtain ⟨behind, -⟩ := List.pairwise_cons.mp apart
      rw [List.nil_append, show (s.absorbAll retain []).1 = s from rfl]
      rcases absorbed : s.absorb retain p with e | t
      · rw [absorbAll_of_error absorbed]
        exact iff_of_true ⟨e, List.mem_cons_self, drops_of_absorb absorbed⟩ ⟨e, rfl⟩
      · rw [absorbAll_of_ok absorbed]
        refine iff_of_false ?_ nofun
        rintro ⟨e, reported, drops⟩
        obtain ⟨q, hq, other⟩ := exists_drops_of_mem reported
        exact (behind q hq).ne (drops.offset_eq other)
  | cons b before ih =>
      obtain ⟨behind, apart⟩ := List.pairwise_cons.mp apart
      rw [List.cons_append]
      rcases absorbed : s.absorb retain b with first | t
      · rw [absorbAll_of_error absorbed, absorbAll_of_error absorbed, ← ih apart]
        have other : ¬ first.Drops p := fun drops =>
          (behind p (by simp)).ne ((drops_of_absorb absorbed).offset_eq drops)
        simp [other]
      · rw [absorbAll_of_ok absorbed, absorbAll_of_ok absorbed]
        exact ih apart

/-! ## Causes of dropping -/

/-- Why a set does not take the option of a frame. -/
inductive Rejects (retain : Bool) (s : OptionSet) (f : Frame) : Prop
  /-- The body is broken. -/
  | malformed {fault : Error} (broken : f.interpret s.mode = .error fault)
  /-- Nobody looks into the frame, and such frames are left out. -/
  | unrecognized {o : OptionRecord} (held : f.interpret s.mode = .ok o)
    (unread : o.isRaw = true) (leftOut : retain = false)
  /-- The option does not belong in this kind of envelope, or contradicts the set. -/
  | refused {o : OptionRecord} {fault : Error} (held : f.interpret s.mode = .ok o)
    (looked : (retain || !o.isRaw) = true) (refusal : s.apply o = .error fault)

theorem rejects_iff : s.Rejects retain p.frame ↔ ∃ e, s.absorb retain p = .error e := by
  constructor
  · intro rejected
    rcases absorbed : s.absorb retain p with e | t
    · exact ⟨e, rfl⟩
    · obtain ⟨o, held, looked, applied⟩ := absorb_eq_ok.mp absorbed
      cases rejected with
      | malformed broken => cases held.symm.trans broken
      | unrecognized held' unread leftOut =>
          cases held.symm.trans held'
          rw [unread, leftOut] at looked
          cases looked
      | refused held' _ refusal =>
          cases held.symm.trans held'
          cases applied.symm.trans refusal
  · rintro ⟨e, failed⟩
    rcases held : p.frame.interpret s.mode with fault | o
    · exact .malformed held
    · by_cases looked : (retain || !o.isRaw) = true
      · rcases applied : s.apply o with fault | t
        · exact .refused held looked applied
        · cases failed.symm.trans (absorb_eq_ok.mpr ⟨o, held, looked, applied⟩)
      · obtain ⟨leftOut, unread⟩ := Bool.or_eq_false_iff.mp (Bool.eq_false_of_not_eq_true looked)
        exact .unrecognized held (by simpa using unread) leftOut

/-- A frame that the set made of those in front of it does not take. -/
def Dropped (retain : Bool) (s : OptionSet) (ps : List PlacedFrame) (p : PlacedFrame) : Prop :=
  ∃ before after, ps = before ++ p :: after ∧
    (s.absorbAll retain before).1.Rejects retain p.frame

/-- The log reports the frames that are dropped, and no other. -/
theorem dropped_iff (apart : ps.Pairwise fun p q => p.offset < q.offset) :
    s.Dropped retain ps p ↔ p ∈ ps ∧ ∃ e ∈ (s.absorbAll retain ps).2, e.Drops p := by
  constructor
  · rintro ⟨before, after, rfl, rejected⟩
    exact ⟨by simp, (drops_iff apart).mpr (rejects_iff.mp rejected)⟩
  · rintro ⟨mem, reported⟩
    obtain ⟨before, after, rfl⟩ := List.append_of_mem mem
    exact ⟨before, after, rfl, rejects_iff.mpr ((drops_iff apart).mp reported)⟩

/-! ## Taking records out -/

/-- The set that frames make does not depend on where they stand. -/
theorem absorbAll_congr (same : ps.map (·.frame) = qs.map (·.frame)) :
    (s.absorbAll retain ps).1 = (s.absorbAll retain qs).1 := by
  induction ps generalizing s qs with
  | nil =>
      obtain rfl := List.map_eq_nil_iff.mp same.symm
      rfl
  | cons p ps ih =>
      obtain ⟨q, qs, rfl, first, others⟩ := List.map_eq_cons_iff.mp same.symm
      have agree (t : OptionSet) : s.absorb retain p = .ok t ↔ s.absorb retain q = .ok t := by
        rw [absorb_eq_ok, absorb_eq_ok, first]
      rw [fst_absorbAll_cons, fst_absorbAll_cons, toOption_congr agree]
      exact ih others.symm

/-- Records that are not absorbed can be taken out. -/
theorem absorbAll_filter {keep : PlacedFrame → Bool}
    (dropped : ∀ before p after, ps = before ++ p :: after → keep p = false →
      ∃ e, (s.absorbAll retain before).1.absorb retain p = .error e) :
    (s.absorbAll retain (ps.filter keep)).1 = (s.absorbAll retain ps).1 := by
  induction ps generalizing s with
  | nil => rfl
  | cons p ps ih =>
      have others (before : List PlacedFrame) (q : PlacedFrame) (after : List PlacedFrame)
          (cut : ps = before ++ q :: after) := dropped (p :: before) q after (by rw [cut]; rfl)
      simp only [fst_absorbAll_cons] at others
      rw [fst_absorbAll_cons, ← ih others]
      rcases kept : keep p
      · obtain ⟨e, refused⟩ := dropped [] p ps rfl kept
        have same : s.absorb retain p = .error e := refused
        rw [List.filter_cons_of_neg (by simp [kept]), same]
        rfl
      · rw [List.filter_cons_of_pos kept, fst_absorbAll_cons]

/-- Records that are dropped can be taken out, and those behind them be moved to
where they stood. -/
theorem absorbAll_kept {offset : Nat} {fs : List Frame} {keep : PlacedFrame → Bool}
    (dropped : ∀ p ∈ PlacedFrame.inOrder offset fs, keep p = false →
      s.Dropped retain (PlacedFrame.inOrder offset fs) p) :
    (s.absorbAll retain (PlacedFrame.inOrder offset
      (((PlacedFrame.inOrder offset fs).filter keep).map (·.frame)))).1 =
        (s.absorbAll retain (PlacedFrame.inOrder offset fs)).1 := by
  have apart := PlacedFrame.pairwise_inOrder offset fs
  rw [absorbAll_congr (PlacedFrame.frames_inOrder _ _)]
  refine absorbAll_filter fun before p after cut out => ?_
  -- a frame stands at one place only, so it was dropped where it is cut off here
  obtain ⟨-, reported⟩ := (dropped_iff apart).mp (dropped p (by simp [cut]) out)
  rw [cut] at apart reported
  exact (drops_iff apart).mp reported

/-! ## Reading without them -/

variable {policy : Policy} {fs : List Frame}

/-- A block is read, and the log reports the records that are dropped.  From what is
left of it without some of them, wherever they stood, the same set is read. -/
theorem read_without_dropped (mode : Mode)
    (fits : (fs.flatMap Frame.bytes).length ≤ Frame.maxBlock)
    (room : fs.length ≤ policy.maxOptions) (behind : Bytes) :
    ∃ s events, (OptionSet.read mode policy).on (.ofBytes (wire fs ++ behind)) =
        (.ok (s, events), ⟨(wire fs).toArray, behind⟩) ∧
      (∀ p, (empty mode).Dropped policy.retainUnrecognized (PlacedFrame.inOrder 0 fs) p ↔
        p ∈ PlacedFrame.inOrder 0 fs ∧ ∃ e ∈ events, e.Drops p) ∧
      ∀ keep : PlacedFrame → Bool,
        (∀ p ∈ PlacedFrame.inOrder 0 fs, keep p = false →
          (empty mode).Dropped policy.retainUnrecognized (PlacedFrame.inOrder 0 fs) p) →
        let kept := ((PlacedFrame.inOrder 0 fs).filter keep).map (·.frame)
        ∃ events', (OptionSet.read mode policy).on (.ofBytes (wire kept ++ behind)) =
          (.ok (s, events'), ⟨(wire kept).toArray, behind⟩) := by
  have apart := PlacedFrame.pairwise_inOrder 0 fs
  refine ⟨_, _, on_read_wire mode fits room behind, fun p => dropped_iff apart,
    fun keep dropped => ?_⟩
  intro kept
  have sublist : kept.Sublist fs := by
    have part := (List.filter_sublist (p := keep) (l := PlacedFrame.inOrder 0 fs)).map (·.frame)
    rwa [PlacedFrame.frames_inOrder] at part
  have fewer : (kept.flatMap Frame.bytes).length ≤ (fs.flatMap Frame.bytes).length :=
    (sublist.flatMap Frame.bytes).length_le
  rw [← absorbAll_kept dropped]
  exact ⟨_, on_read_wire mode (fewer.trans fits) (sublist.length_le.trans room) behind⟩

/-- A setting on both legs, a record that is not known, one that is cut short, another
setting that conflicts on one leg only, and a session; what is cut short and what
conflicts is taken out, and what is not known is dropped again. -/
theorem read_without_dropped_damaged :
    let fs : List Frame := [⟨1, [3, 1, 1, 7]⟩, ⟨99, [1]⟩, ⟨1, [3]⟩, ⟨1, [2, 1, 1, 8]⟩, ⟨4, [1]⟩]
    let keep : PlacedFrame → Bool := fun p => p.offset ≠ 13 ∧ p.offset ≠ 18
    (fs.flatMap Frame.bytes).length ≤ Frame.maxBlock ∧ fs.length ≤ Policy.strict.maxOptions ∧
    (∀ p ∈ PlacedFrame.inOrder 0 fs, keep p = false →
      (empty .request).Dropped false (PlacedFrame.inOrder 0 fs) p) ∧
    ∃ s events events',
      (OptionSet.read .request .strict).on (.ofBytes (wire fs ++ [9])) =
        (.ok (s, events), ⟨(wire fs).toArray, [9]⟩) ∧
      (OptionSet.read .request .strict).on
        (.ofBytes (wire [⟨1, [3, 1, 1, 7]⟩, ⟨99, [1]⟩, ⟨4, [1]⟩] ++ [9])) =
        (.ok (s, events'), ⟨(wire [⟨1, [3, 1, 1, 7]⟩, ⟨99, [1]⟩, ⟨4, [1]⟩]).toArray, [9]⟩) := by
  intro fs keep
  have fits : (fs.flatMap Frame.bytes).length ≤ Frame.maxBlock := by decide
  have room : fs.length ≤ Policy.strict.maxOptions := by decide
  obtain ⟨s, events, read, dropped, others⟩ := read_without_dropped .request fits room [9]
  have log : events = ((empty .request).absorbAll false (PlacedFrame.inOrder 0 fs)).2 := by
    cases read.symm.trans (on_read_wire .request fits room [9])
    rfl
  have reported : ∀ p ∈ PlacedFrame.inOrder 0 fs, keep p = false → ∃ e ∈ events, e.Drops p := by
    rw [log]
    decide
  have out : ∀ p ∈ PlacedFrame.inOrder 0 fs, keep p = false →
      (empty .request).Dropped false (PlacedFrame.inOrder 0 fs) p :=
    fun p mem left => (dropped p).mpr ⟨mem, reported p mem left⟩
  obtain ⟨events', short⟩ := others keep out
  exact ⟨fits, room, out, s, events, events', read, short⟩

end OptionSet

end Socks6
