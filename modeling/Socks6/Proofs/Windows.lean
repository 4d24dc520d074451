/-
# Socks6.Proofs.Windows — which tokens a window holds

Tokens wrap around, so a window may end at a smaller token than it begins with.
What does not wrap is the distance from a base to a token, going up and around: it
is less than 2³², and a token is the `k`-th behind a base for one such `k` only
(`TokenWindow.eq_add_mod_iff`).  A window is asked about the distance from its base,
so it holds each of its tokens at one place.

The window that follows begins where this one ends.  A token of both would be as far
behind its base as is left of one turn, which is too far if the two sizes together
make no more than one turn (`TokenWindow.disjoint_iff`).  Half of all tokens is the
largest size for which two windows always leave room for each other.
-/
import Socks6.Proofs.Invariant

namespace Socks6

namespace TokenWindow

variable {base size token : UInt32} {w : TokenWindow}

theorem ofSize_eq_ok :
    ofSize base size = .ok w ↔ (1 ≤ size.toNat ∧ size.toNat ≤ 2 ^ 31) ∧ w = ⟨base, size⟩ := by
  rw [ofSize, bind_eq_ok]
  constructor
  · intro accepted
    obtain ⟨_, valid, rest⟩ := accepted
    exact ⟨bounds_of_checkSize valid, (pure_eq_ok.mp rest).symm⟩
  · intro h
    obtain ⟨⟨some, most⟩, rfl⟩ := h
    refine ⟨(), if_neg ?_, rfl⟩
    rintro (zero | large)
    · rw [zero] at some
      exact absurd some (by decide)
    · exact absurd (UInt32.lt_iff_toNat_lt.mp large) (Nat.not_lt_of_le most)

/-- A window is asked how far a token lies behind its base. -/
theorem contains_iff_distance :
    w.contains token = true ↔ (token - w.base).toNat < w.size.toNat := by
  rw [contains, decide_eq_true_iff, UInt32.lt_iff_toNat_lt]

/-- Less than one turn behind a base stands the token of that distance, and no other. -/
theorem eq_add_mod_iff {k : Nat} (turn : k < 2 ^ 32) :
    token.toNat = (base.toNat + k) % 2 ^ 32 ↔ (token - base).toNat = k := by
  have least := base.toNat_lt
  have most := token.toNat_lt
  rw [UInt32.toNat_sub]
  omega

/-- Two windows in a row share no token exactly if together they make at most one turn. -/
theorem disjoint_iff (base size₁ size₂ : UInt32) :
    (∀ token, ¬(contains ⟨base, size₁⟩ token = true ∧
      contains ⟨base + size₁, size₂⟩ token = true)) ↔ size₁.toNat + size₂.toNat ≤ 2 ^ 32 := by
  simp only [contains_iff_distance]
  have start := base.toNat_lt
  have first := size₁.toNat_lt
  have second := size₂.toNat_lt
  constructor
  · -- the base itself is one turn behind itself, and what is left of it behind the first window
    intro disjoint
    have apart := disjoint base
    rw [UInt32.toNat_sub, UInt32.toNat_sub, UInt32.toNat_add] at apart
    omega
  · intro oneTurn token
    have last := token.toNat_lt
    rw [UInt32.toNat_sub, UInt32.toNat_sub, UInt32.toNat_add]
    omega

/-- A window that is accepted holds the tokens from its base on, as many as its size,
each of them at one place; and it shares none of them with the window that follows. -/
theorem window_unambiguous (accepted : ofSize base size = .ok w) :
    (∀ token : UInt32,
      (w.contains token = true ↔ ∃ k < size.toNat, token.toNat = (base.toNat + k) % 2 ^ 32) ∧
      ∀ k < size.toNat, ∀ k' < size.toNat, token.toNat = (base.toNat + k) % 2 ^ 32 →
        token.toNat = (base.toNat + k') % 2 ^ 32 → k = k') ∧
    ∀ (next size' : UInt32) (w' : TokenWindow),
      next.toNat = (base.toNat + size.toNat) % 2 ^ 32 → ofSize next size' = .ok w' →
        ∀ token, ¬(w.contains token = true ∧ w'.contains token = true) := by
  obtain ⟨⟨-, most⟩, rfl⟩ := ofSize_eq_ok.mp accepted
  have turn : ∀ k < size.toNat, k < 2 ^ 32 := fun k inside => inside.trans size.toNat_lt
  refine ⟨fun token => ⟨?_, ?_⟩, ?_⟩
  · rw [contains_iff_distance]
    constructor
    · intro near
      exact ⟨_, near, (eq_add_mod_iff (turn _ near)).mpr rfl⟩
    · rintro ⟨k, inside, place⟩
      rwa [(eq_add_mod_iff (turn k inside)).mp place]
  · intro k inside k' inside' place place'
    rw [← (eq_add_mod_iff (turn k inside)).mp place, ← (eq_add_mod_iff (turn k' inside')).mp place']
  · intro next size' w' follows accepted' token
    obtain ⟨⟨-, most'⟩, rfl⟩ := ofSize_eq_ok.mp accepted'
    obtain rfl : next = base + size := UInt32.toNat_inj.mp (by rw [follows, UInt32.toNat_add])
    exact (disjoint_iff base size size').mpr (by omega) token

/-- The largest window that there is, from the last token on, and one just as large behind it. -/
theorem window_unambiguous_around :
    let w : TokenWindow := ⟨4294967295, 2147483648⟩
    let w' : TokenWindow := ⟨2147483647, 2147483648⟩
    ofSize 4294967295 2147483648 = .ok w ∧ ofSize 2147483647 2147483648 = .ok w' ∧
    (w.contains 2147483646 = true ↔
      ∃ k < 2147483648, 2147483646 = (4294967295 + k) % 2 ^ 32) ∧
    ∀ token, ¬(w.contains token = true ∧ w'.contains token = true) := by
  intro w w'
  have accepted : ofSize 4294967295 2147483648 = .ok w := by rfl
  have accepted' : ofSize 2147483647 2147483648 = .ok w' := by rfl
  obtain ⟨holds, disjoint⟩ := window_unambiguous accepted
  exact ⟨accepted, accepted', (holds 2147483646).1, disjoint _ _ w' (by decide) accepted'⟩

/-- One token more in each, and the second window comes around to the base of the first. -/
example : contains ⟨7, 2147483649⟩ 7 = true ∧ contains ⟨7 + 2147483649, 2147483649⟩ 7 = true := by
  decide

end TokenWindow

end Socks6
