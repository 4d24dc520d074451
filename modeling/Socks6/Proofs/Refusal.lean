/-
# Socks6.Proofs.Refusal — a refused change leaves nothing behind

A set may be changed where it stands, field by field.  Such a change could fail
between two assignments and leave half of itself behind.  None does: each makes
what `OptionSet.change` makes of the set, or it fails and the set is as it was
(`OptionSet.on_perform`).  This is shown for the slots first and then for what is
made of them, and all that it needs is that no check stands behind an assignment
(`UpdateM.Performs`).

What a refusal says is shown of `OptionSet.change`, where it is the same.  It
always blames the value of a field, and so do all the checks that a change makes
(`Blames`).  A raw record is read to find out whether it is opaque, and reading
may fail in any way; but that failure is quoted and not passed on.
-/
import Socks6.OptionSet.InPlace

namespace Socks6

/-! ## Changes in place -/

namespace UpdateM

variable {σ τ : Type} {act : UpdateM σ Unit} {f : σ → Except Error σ}

/-- What stood there has become what `f` makes of it, or `f` refuses and it is as it was. -/
def Performs (act : UpdateM σ Unit) (f : σ → Except Error σ) : Prop :=
  ∀ s, act.on s =
    match f s with
    | .ok t => (.ok (), t)
    | .error e => (.error e, s)

theorem on_bind (x : UpdateM σ Unit) (k : Unit → UpdateM σ Unit) (s : σ) :
    (x >>= k).on s =
      match x.on s with
      | (.ok (), t) => (k ()).on t
      | (.error e, t) => (.error e, t) := by
  simp only [on, bind, ExceptT.run, ExceptT.bind, ExceptT.mk, StateT.run, StateT.bind]
  rcases x s with ⟨_ | _, _⟩ <;> rfl

namespace Performs

theorem congr {g : σ → Except Error σ} (h : Performs act f) (same : ∀ s, f s = g s) :
    Performs act g := by
  intro s
  rw [h s, same s]

theorem on_eq_ok (h : Performs act f) {s t : σ} : act.on s = (.ok (), t) ↔ f s = .ok t := by
  rw [h s]
  rcases f s with e | u <;> simp

theorem on_eq_error (h : Performs act f) {s t : σ} {e : Error} :
    act.on s = (.error e, t) ↔ f s = .error e ∧ s = t := by
  rw [h s]
  rcases f s with e | u <;> simp

theorem assign (f : σ → σ) : Performs (assign f) fun s => .ok (f s) := by
  intro s
  rfl

/-- A check in front of an update changes nothing that the update would have to undo. -/
theorem verify (wrong : σ → Except Error Unit) (h : Performs act f) :
    Performs (do verify wrong; act) (fun s => do wrong s; f s) := by
  intro s
  have looked : (UpdateM.verify wrong).on s = (wrong s, s) := rfl
  rw [on_bind, looked]
  dsimp only
  rcases wrong s with e | ⟨⟩
  · rfl
  · exact h s

/-- What cannot fail may stand behind an update that can. -/
theorem andAssign (h : Performs act f) (g : σ → σ) :
    Performs (do act; UpdateM.assign g) (fun s => do return g (← f s)) := by
  intro s
  rw [on_bind, h s]
  dsimp only
  rcases f s with e | t <;> rfl

/-- A part that is as it was leaves the whole as it was. -/
theorem part {act : UpdateM τ Unit} {f : τ → Except Error τ} (h : Performs act f) (p : Part σ τ) :
    Performs (part p act) (fun s => do return p.put s (← f (p.get s))) := by
  intro s
  have inside : (UpdateM.part p act).on s =
      ((act.on (p.get s)).1, p.put s (act.on (p.get s)).2) := rfl
  rw [inside, h]
  dsimp only
  rcases f (p.get s) with e | t
  · exact congrArg (Prod.mk _) (p.put_get s)
  · rfl

end Performs

end UpdateM

open UpdateM

theorem Slot.performs_update {α : Type} [DecidableEq α] [Shown α] (field : String) (value : α) :
    Performs (Slot.update field value) fun slot => Slot.merge field slot value :=
  .verify _ (.assign _)

theorem Legs.performs_update {α : Type} [DecidableEq α] [Shown α] (field : String) (leg : Leg)
    (value : α) : Performs (Legs.update field leg value) fun l => l.merge field leg value := by
  cases leg with
  | clientProxy => exact (Slot.performs_update field value).part _
  | proxyRemote => exact (Slot.performs_update field value).part _
  | both => exact .verify _ (.verify _ (.andAssign (.assign _) _))

theorem StackGroup.performs_update (s : StackSetting) :
    Performs (StackGroup.update s) fun g => g.merge s := by
  obtain ⟨leg, property⟩ := s
  cases property with
  | tos value => exact .verify _ ((Legs.performs_update _ leg value).part _)
  | fastOpen size => exact .verify _ ((Legs.performs_update _ leg size).part _)
  | multipath flag => exact .verify _ ((Legs.performs_update _ leg flag).part _)
  | scheduler how => exact .verify _ ((Legs.performs_update _ leg how).part _)
  | backlog n => exact .verify _ ((Legs.performs_update _ leg n).part _)

theorem SessionGroup.performs_update (x : SessionSignal) :
    Performs (SessionGroup.update x) fun g => g.merge x := by
  cases x with
  | state s => exact (Slot.performs_update _ s).part _
  | teardown => exact .assign _
  | untrusted => exact .assign _

theorem TokenGroup.performs_update (o : TokenOption) :
    Performs (TokenGroup.update o) fun g => g.merge o := by
  cases o with
  | windowRequest size => exact .verify _ ((Slot.performs_update _ size).part _)
  | window w => exact .verify _ ((Slot.performs_update _ w).part _)
  | expenditure token => exact .verify _ ((Slot.performs_update _ token).part _)
  | expenditureReply result => exact .verify _ ((Slot.performs_update _ result).part _)

theorem AuthDataGroup.performs_update (d : AuthData) :
    Performs (AuthDataGroup.update d) fun g => g.merge d := by
  cases d with
  | credentials c => exact .verify _ ((Slot.performs_update _ c).part _)
  | verdict success => exact (Slot.performs_update _ success).part _

namespace MethodGroup

/-- The methods of an advertisement are looked at before its length is assigned, so
they can be assigned behind it. -/
theorem performs_update (a : Advertisement) :
    Performs (update a) fun g => g.merge a := by
  -- a length of zero is not assigned, so there are two sequences to look at
  by_cases zero : a.initialDataLength = 0
  · have skipped : update a = (do
        UpdateM.verify fun _ => a.validate
        UpdateM.assign fun g => { g with advertised := g.advertised.insertAll a.emitted }) := by
      unfold update
      rw [if_neg (by simp [zero])]
    rw [skipped]
    refine (Performs.verify _ (.assign _)).congr fun g => ?_
    unfold merge
    rw [if_pos zero]
    rfl
  · have both : update a = (do
        UpdateM.verify fun _ => a.validate
        UpdateM.part (.mk initialDataLength fun g slot => { g with initialDataLength := slot })
          (Slot.update "initial data length" a.initialDataLength)
        UpdateM.assign fun g => { g with advertised := g.advertised.insertAll a.emitted }) := by
      unfold update
      rw [if_pos zero]
    rw [both]
    refine (Performs.verify _ (((Slot.performs_update _ _).part _).andAssign _)).congr fun g => ?_
    unfold merge
    rw [if_neg zero]
    rcases a.validate with e | ⟨⟩
    · rfl
    · rcases Slot.merge "initial data length" g.initialDataLength a.initialDataLength with e | l
      · rfl
      · rfl

theorem performs_reselect (m : AuthMethod) :
    Performs (reselect m) fun g => g.select m :=
  .verify _ (.assign _)

end MethodGroup

/-- What follows a look may as well stand inside of it, which is where `do` puts it. -/
theorem unless_bind {α : Type} {fine : Prop} [Decidable fine] {e : Error}
    {k : Unit → Except Error α} :
    (if fine then pure () else throw e) >>= k = if fine then k () else throw e >>= k := by
  split <;> rfl

namespace OptionSet

theorem performs_update (o : OptionRecord) : Performs (update o) fun s => s.apply o := by
  cases o with
  | stack x =>
      exact (Performs.verify _ ((StackGroup.performs_update x).part _)).congr fun _ => unless_bind
  | session x =>
      exact (Performs.verify _ ((SessionGroup.performs_update x).part _)).congr fun _ => unless_bind
  | token x =>
      exact (Performs.verify _ ((TokenGroup.performs_update x).part _)).congr fun _ => unless_bind
  | advertisement a =>
      exact (Performs.verify _ ((MethodGroup.performs_update a).part _)).congr fun _ => unless_bind
  | authData d =>
      exact (Performs.verify _ ((AuthDataGroup.performs_update d).part _)).congr
        fun _ => unless_bind
  | raw frame =>
      exact (Performs.verify _ (.verify _ (.assign _))).congr fun _ => unless_bind

theorem performs_reselect (m : AuthMethod) : Performs (reselect m) fun s => s.select m :=
  (Performs.verify _ ((MethodGroup.performs_reselect m).part _)).congr fun _ => unless_bind

theorem change_eq (s : OptionSet) (c : Change) :
    s.change c = (do
      c.validate
      match c.demand with
      | .inl o => s.apply o
      | .inr m => s.select m) := by
  cases c with
  | advertiseWindow base size =>
      simp only [change, Change.validate, Change.demand, TokenWindow.ofSize]
      rcases TokenWindow.checkSize size with e | ⟨⟩ <;> rfl
  | initialDataLength n =>
      by_cases zero : n = 0
      · simp only [change, Change.validate, zero, if_true]
        rfl
      · simp only [change, Change.validate, zero, if_false]
        rfl
  | _ => rfl

theorem performs_perform (c : Change) : Performs c.perform fun s => s.change c := by
  -- what is asked of the values alone does not depend on the set
  have demanded : Performs
      (match c.demand with
        | .inl o => update o
        | .inr m => reselect m)
      (fun s =>
        match c.demand with
        | .inl o => s.apply o
        | .inr m => s.select m) := by
    rcases c.demand with o | m
    · exact performs_update o
    · exact performs_reselect m
  exact (Performs.verify (fun _ => c.validate) demanded).congr fun s => (s.change_eq c).symm

/-- A change makes the same of a set where it stands as it makes of a copy. -/
theorem on_perform (s : OptionSet) (c : Change) : c.perform.on s = s.attempt c := by
  rw [performs_perform c s, attempt]
  dsimp only
  rcases s.change c with e | t <;> rfl

theorem foldl_perform (s : OptionSet) (cs : List Change) :
    cs.foldl (fun t c => (c.perform.on t).2) s = s.run cs := by
  simp only [on_perform, run]

end OptionSet

/-! ## What a refusal says -/

/-- If this fails, it blames the value of a field. -/
def Blames {α : Type} (x : Except Error α) : Prop :=
  ∀ e, x = .error e → ∃ field reason, e = .invalidField field reason

namespace Blames

variable {α β : Type}

theorem ok (a : α) : Blames (.ok a : Except Error α) := by
  intro e failed
  cases failed

theorem invalidField (field : String) (reason : Reason) :
    Blames (.error (.invalidField field reason) : Except Error α) := by
  intro e failed
  cases failed
  exact ⟨field, reason, rfl⟩

theorem bind {x : Except Error α} {k : α → Except Error β} (hx : Blames x)
    (hk : ∀ a, Blames (k a)) : Blames (x >>= k) := by
  rcases x with e | a
  · intro e' failed
    cases failed
    exact hx e rfl
  · exact hk a

theorem ite {fine : Prop} [Decidable fine] {x y : Except Error α} (hx : Blames x)
    (hy : Blames y) : Blames (if fine then x else y) := by
  split
  · exact hx
  · exact hy

end Blames

namespace Slot

variable {α : Type} [DecidableEq α] [Shown α]

theorem blames_check (field : String) (slot : Option α) (value : α) :
    Blames (check field slot value) := by
  cases slot with
  | none => exact .ok ()
  | some held => exact .ite (.ok ()) (.invalidField field _)

theorem blames_merge (field : String) (slot : Option α) (value : α) :
    Blames (merge field slot value) :=
  (blames_check field slot value).bind fun _ => .ok _

end Slot

theorem Legs.blames_merge {α : Type} [DecidableEq α] [Shown α] (field : String) (l : Legs α)
    (leg : Leg) (value : α) : Blames (l.merge field leg value) := by
  cases leg with
  | clientProxy => exact (Slot.blames_merge field _ value).bind fun _ => .ok _
  | proxyRemote => exact (Slot.blames_merge field _ value).bind fun _ => .ok _
  | both =>
      exact (Slot.blames_check field _ value).bind fun _ =>
        (Slot.blames_check field _ value).bind fun _ => .ok _

theorem StackProperty.blames_validate (p : StackProperty) : Blames p.validate := by
  cases p with
  | backlog n => exact .ite (.invalidField _ _) (.ok ())
  | _ => exact .ok ()

theorem StackGroup.blames_merge (g : StackGroup) (s : StackSetting) : Blames (g.merge s) := by
  obtain ⟨leg, property⟩ := s
  refine (StackProperty.blames_validate property).bind fun _ => ?_
  cases property
  all_goals exact (Legs.blames_merge _ _ leg _).bind fun _ => .ok _

theorem SessionGroup.blames_merge (g : SessionGroup) (x : SessionSignal) : Blames (g.merge x) := by
  cases x with
  | state s => exact (Slot.blames_merge _ _ s).bind fun _ => .ok _
  | teardown => exact .ok _
  | untrusted => exact .ok _

theorem TokenWindow.blames_checkSize (size : UInt32) : Blames (checkSize size) :=
  .ite (.invalidField _ _) (.ok ())

theorem TokenOption.blames_validate (o : TokenOption) : Blames o.validate := by
  cases o with
  | windowRequest size => exact TokenWindow.blames_checkSize size
  | window w => exact TokenWindow.blames_checkSize w.size
  | _ => exact .ok ()

theorem TokenGroup.blames_merge (g : TokenGroup) (o : TokenOption) : Blames (g.merge o) := by
  refine (TokenOption.blames_validate o).bind fun _ => ?_
  cases o
  all_goals exact (Slot.blames_merge _ _ _).bind fun _ => .ok _

theorem Advertisement.blames_validate (a : Advertisement) : Blames a.validate :=
  .ite (.invalidField _ _) (.ite (.invalidField _ _) (.ok ()))

namespace MethodGroup

theorem blames_merge (g : MethodGroup) (a : Advertisement) : Blames (g.merge a) := by
  refine (Advertisement.blames_validate a).bind fun _ => ?_
  by_cases zero : a.initialDataLength = 0
  · rw [if_pos zero]
    exact .ok _
  · rw [if_neg zero]
    exact (Slot.blames_merge _ _ _).bind fun _ => .ok _

theorem blames_select (g : MethodGroup) (m : AuthMethod) : Blames (g.select m) :=
  (Slot.blames_check _ _ m).bind fun _ => .ok _

end MethodGroup

theorem ShortString.blames_checkName (s : ShortString) (field : String) :
    Blames (s.checkName field) := by
  refine .ite (.invalidField _ _) ?_
  split
  · exact .invalidField _ _
  · exact .ok ()

theorem AuthDataGroup.blames_merge (g : AuthDataGroup) (d : AuthData) : Blames (g.merge d) := by
  cases d with
  | credentials c =>
      have named : Blames c.validate :=
        (c.username.blames_checkName _).bind fun _ => c.password.blames_checkName _
      exact named.bind fun _ => (Slot.blames_merge _ _ c).bind fun _ => .ok _
  | verdict success => exact (Slot.blames_merge _ _ success).bind fun _ => .ok _

theorem Change.blames_validate (c : Change) : Blames c.validate := by
  cases c with
  | advertiseWindow base size => exact TokenWindow.blames_checkSize size
  | initialDataLength n => exact .ite (.invalidField _ _) (.ok ())
  | _ => exact .ok ()

namespace OptionSet

/-- Reading the frame may fail in any way, but that is not the failure that is passed on. -/
theorem blames_checkOpaque (s : OptionSet) (frame : Frame) : Blames (s.checkOpaque frame) := by
  unfold checkOpaque
  split
  · exact .ok ()
  · exact .invalidField _ _
  · exact .invalidField _ _

theorem blames_apply (s : OptionSet) (o : OptionRecord) : Blames (s.apply o) := by
  refine .ite ?_ (.invalidField _ _)
  cases o with
  | stack x => exact (s.stack.blames_merge x).bind fun _ => .ok _
  | session x => exact (s.session.blames_merge x).bind fun _ => .ok _
  | token x => exact (s.tokens.blames_merge x).bind fun _ => .ok _
  | advertisement a => exact (s.methods.blames_merge a).bind fun _ => .ok _
  | authData d => exact (s.authData.blames_merge d).bind fun _ => .ok _
  | raw frame => exact (s.blames_checkOpaque frame).bind fun _ => .ok _

theorem blames_select (s : OptionSet) (m : AuthMethod) : Blames (s.select m) :=
  .ite ((s.methods.blames_select m).bind fun _ => .ok _) (.invalidField _ _)

theorem blames_change (s : OptionSet) (c : Change) : Blames (s.change c) := by
  rw [change_eq]
  refine c.blames_validate.bind fun _ => ?_
  rcases c.demand with o | m
  · exact s.blames_apply o
  · exact s.blames_select m

/-- A change can as well be made where the set stands; and one that is refused there
blames the value of a field, and leaves the set as it was in every field. -/
theorem perform_refused (s : OptionSet) (c : Change) :
    s.attempt c = c.perform.on s ∧
    ∀ e t, c.perform.on s = (.error e, t) →
      (∃ field reason, e = .invalidField field reason) ∧ t = s := by
  refine ⟨(on_perform s c).symm, ?_⟩
  intro e t refused
  rw [on_perform, attempt] at refused
  rcases made : s.change c with e' | u
  · rw [made] at refused
    cases refused
    exact ⟨blames_change s c e made, rfl⟩
  · rw [made] at refused
    cases refused

/-- A setting for both legs that contradicts what is set on the second one, and a
raw option that breaks off behind its first byte. -/
theorem perform_refused_both_and_broken :
    let s := (empty .request).run [.tos .proxyRemote 7, .advertiseMethod .gssapi]
    let both : Change := .tos .both 8
    let broken : Change := .raw ⟨1, [3]⟩
    let conflict : Error := .conflict "tos" "7" "8"
    let quoted : Error := .invalidField "raw option" (.malformed 1
      "Truncated: need 1 bytes, 0 available (context: read at offset 1)")
    (∃ t, both.perform.on s = (.error conflict, t) ∧
      (∃ field reason, conflict = .invalidField field reason) ∧ t = s) ∧
    ∃ t, broken.perform.on s = (.error quoted, t) ∧
      (∃ field reason, quoted = .invalidField field reason) ∧ t = s := by
  intro s both broken conflict quoted
  have first : both.perform.on s = (.error conflict, s) := rfl
  have second : broken.perform.on s = (.error quoted, s) := rfl
  exact ⟨⟨s, first, (perform_refused s both).2 _ _ first⟩,
    ⟨s, second, (perform_refused s broken).2 _ _ second⟩⟩

end OptionSet

end Socks6
